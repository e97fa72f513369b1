import Mathlib.Data.List.Induction
import Mathlib.Tactic.NormNum.Basic

/-!
Length-prefixed framing of byte strings. A frame is the length of its body in a fixed number
of big-endian bytes, and then the body. Reading takes one frame off the front of a stream; it
gives up on a stream that ends too early and on a length above the cap, which it sees before
the body. A stream cut anywhere is a number of complete frames and a part of the next one.
-/
namespace MayflyAgent.Framing

def toBigEndian : Nat → Nat → List UInt8
  | 0, _ => []
  | width + 1, n => toBigEndian width (n / 256) ++ [UInt8.ofNat (n % 256)]

def ofBigEndian (bytes : List UInt8) : Nat :=
  bytes.foldl (fun n byte => n * 256 + byte.toNat) 0

theorem ofBigEndian_concat (bytes : List UInt8) (byte : UInt8) :
    ofBigEndian (bytes ++ [byte]) = ofBigEndian bytes * 256 + byte.toNat := by
  simp [ofBigEndian]

@[simp] theorem length_toBigEndian (width n : Nat) : (toBigEndian width n).length = width := by
  induction width generalizing n with
  | zero => rfl
  | succ width ih => simp [toBigEndian, ih]

theorem ofBigEndian_toBigEndian {width n : Nat} (h : n < 256 ^ width) :
    ofBigEndian (toBigEndian width n) = n := by
  induction width generalizing n with
  | zero =>
    obtain rfl : n = 0 := by simpa using h
    rfl
  | succ width ih =>
    have hhigh : n / 256 < 256 ^ width := by
      rw [Nat.pow_succ] at h
      omega
    have hlow : (UInt8.ofNat (n % 256)).toNat = n % 256 := by
      simp
    rw [toBigEndian, ofBigEndian_concat, ih hhigh, hlow]
    omega

theorem toBigEndian_ofBigEndian (bytes : List UInt8) :
    toBigEndian bytes.length (ofBigEndian bytes) = bytes := by
  induction bytes using List.reverseRecOn with
  | nil => rfl
  | append_singleton bytes byte ih =>
    have hbyte := byte.toNat_lt
    have hhigh : (ofBigEndian bytes * 256 + byte.toNat) / 256 = ofBigEndian bytes := by omega
    have hlow : (ofBigEndian bytes * 256 + byte.toNat) % 256 = byte.toNat := by omega
    rw [List.length_append, List.length_singleton, toBigEndian, ofBigEndian_concat, hhigh, hlow,
      ih, UInt8.ofNat_toNat]

theorem ofBigEndian_lt (bytes : List UInt8) : ofBigEndian bytes < 256 ^ bytes.length := by
  induction bytes using List.reverseRecOn with
  | nil => decide
  | append_singleton bytes byte ih =>
    have hbyte := byte.toNat_lt
    rw [ofBigEndian_concat, List.length_append, List.length_singleton, Nat.pow_succ]
    omega

inductive Failure
  | truncated
  | oversized
  deriving DecidableEq

def frame (width : Nat) (body : List UInt8) : List UInt8 :=
  toBigEndian width body.length ++ body

/-- The body of the first frame of a stream, and the rest of the stream. -/
def unframe (width cap : Nat) (stream : List UInt8) :
    Except Failure (List UInt8 × List UInt8) :=
  if stream.length < width then .error .truncated
  else if cap < ofBigEndian (stream.take width) then .error .oversized
  else if (stream.drop width).length < ofBigEndian (stream.take width) then .error .truncated
  else .ok ((stream.drop width).splitAt (ofBigEndian (stream.take width)))

section Streams

variable {width cap : Nat} {body stream cut : List UInt8}

theorem length_frame : (frame width body).length = width + body.length := by
  simp [frame]

theorem take_frame (rest : List UInt8) :
    (frame width body ++ rest).take width = toBigEndian width body.length := by
  rw [frame, List.append_assoc, List.take_left' (length_toBigEndian ..)]

theorem drop_frame (rest : List UInt8) : (frame width body ++ rest).drop width = body ++ rest := by
  rw [frame, List.append_assoc, List.drop_left' (length_toBigEndian ..)]

/-- A frame in front of anything is taken off it. -/
theorem unframe_frame (hcap : cap < 256 ^ width) (hbody : body.length ≤ cap)
    (rest : List UInt8) : unframe width cap (frame width body ++ rest) = .ok (body, rest) := by
  have hlength : ¬ (frame width body ++ rest).length < width := by
    rw [List.length_append, length_frame]
    omega
  rw [unframe, if_neg hlength, take_frame, drop_frame,
    ofBigEndian_toBigEndian (Nat.lt_of_le_of_lt hbody hcap), if_neg (Nat.not_lt.mpr hbody),
    if_neg (by simp), List.splitAt_eq, List.take_left, List.drop_left]

/-- Whatever was read stood in the stream as a frame of its own. -/
theorem eq_frame_of_unframe {rest : List UInt8}
    (h : unframe width cap stream = .ok (body, rest)) :
    stream = frame width body ++ rest ∧ body.length ≤ cap := by
  unfold unframe at h
  split_ifs at h with hheader hcap hlength
  rw [List.splitAt_eq] at h
  obtain ⟨rfl, rfl⟩ := Prod.mk.inj (Except.ok.inj h)
  have hbody : ((stream.drop width).take (ofBigEndian (stream.take width))).length =
      ofBigEndian (stream.take width) := by
    rw [List.length_take]
    omega
  have hwidth : (stream.take width).length = width := by
    rw [List.length_take]
    omega
  have hdeclared := toBigEndian_ofBigEndian (stream.take width)
  rw [hwidth] at hdeclared
  refine ⟨?_, by omega⟩
  rw [frame, hbody, hdeclared, List.append_assoc, List.take_append_drop, List.take_append_drop]

theorem unframe_eq_ok_iff (hcap : cap < 256 ^ width) {rest : List UInt8} :
    unframe width cap stream = .ok (body, rest) ↔
      stream = frame width body ++ rest ∧ body.length ≤ cap := by
  constructor
  · exact eq_frame_of_unframe
  · rintro ⟨rfl, hbody⟩
    exact unframe_frame hcap hbody rest

/-- A part of a frame is no frame. -/
theorem unframe_part (hcap : cap < 256 ^ width) (hbody : body.length ≤ cap)
    (hpart : cut <+: frame width body) (hne : cut ≠ frame width body) :
    unframe width cap cut = .error .truncated := by
  have hlength : cut.length < width + body.length := by
    have hframe : (frame width body).length = width + body.length := length_frame
    rw [← hframe]
    exact Nat.lt_of_le_of_ne hpart.length_le fun h => hne (hpart.eq_of_length h)
  unfold unframe
  by_cases hheader : cut.length < width
  · rw [if_pos hheader]
  obtain ⟨missing, hmissing⟩ := hpart
  have htake : cut.take width = toBigEndian width body.length := by
    have hframe : (frame width body ++ []).take width = toBigEndian width body.length :=
      take_frame []
    rw [← hframe, List.append_nil, ← hmissing,
      List.take_append_of_le_length (Nat.not_lt.mp hheader)]
  rw [if_neg hheader, htake, ofBigEndian_toBigEndian (Nat.lt_of_le_of_lt hbody hcap),
    if_neg (Nat.not_lt.mpr hbody), if_pos]
  rw [List.length_drop]
  omega

end Streams

def frames (width : Nat) (bodies : List (List UInt8)) : List UInt8 :=
  bodies.flatMap (frame width)

theorem frames_cons (width : Nat) (body : List UInt8) (bodies : List (List UInt8)) :
    frames width (body :: bodies) = frame width body ++ frames width bodies := List.flatMap_cons

/-- A stream of frames that is cut short ends inside one of them. -/
theorem frames_cut {width : Nat} {bodies : List (List UInt8)} {cut : List UInt8}
    (hcut : cut <+: frames width bodies) (hne : cut ≠ frames width bodies) :
    ∃ whole body rest part, bodies = whole ++ body :: rest ∧ cut = frames width whole ++ part ∧
      part <+: frame width body ∧ part ≠ frame width body := by
  induction bodies generalizing cut with
  | nil => exact absurd (List.prefix_nil.mp hcut) hne
  | cons body bodies ih =>
    rw [frames_cons] at hcut hne
    rcases Nat.lt_or_ge cut.length (frame width body).length with hshort | hlong
    · refine ⟨[], body, bodies, cut, rfl, rfl, ?_, fun h => by simp [h] at hshort⟩
      exact List.prefix_of_prefix_length_le hcut (List.prefix_append ..) (Nat.le_of_lt hshort)
    · obtain ⟨more, rfl⟩ := List.prefix_of_prefix_length_le (List.prefix_append ..) hcut hlong
      have hmore : more <+: frames width bodies := (List.prefix_append_right_inj _).mp hcut
      obtain ⟨whole, next, rest, part, rfl, rfl, hpart, hpartial⟩ :=
        ih hmore fun h => hne (congrArg _ h)
      exact ⟨body :: whole, next, rest, part, rfl, by rw [frames_cons, List.append_assoc], hpart,
        hpartial⟩

end MayflyAgent.Framing
