import MayflyAgent.Helper

/-!
Reading and writing frames on a stream. The other side is given by what it does with each part
of a connection and by the byte at which it stops, so the calls of the client have one answer
each. Reading a frame then takes one frame off the bytes that arrive, and a list of bodies that
was written in order is read back in order, up to the byte where the stream ends.
-/
namespace MayflyAgent.HelperStreams

open RustText Programs Checks Errors Framing Helper

/-- What the socket has taken so far, and the bytes that are still to arrive. -/
structure Wire where
  sent : Bytes
  incoming : Bytes
  deriving DecidableEq

/-- The other side of the next connection. The socket accepts bytes up to a limit, the peer takes
some of them, and its reply arrives up to where it closes or is too late. -/
structure Peer where
  tokenFile : Option Text
  connects : Bool
  readTimeout : Bool
  writeTimeout : Bool
  limit : Option Nat
  takes : Nat
  reply : Bytes

/-- A stream that takes everything. -/
def Peer.boundless : Peer where
  tokenFile := some []
  connects := true
  readTimeout := true
  writeTimeout := true
  limit := none
  takes := 0
  reply := []

def Peer.accepted (peer : Peer) (stream : Bytes) : Bytes :=
  match peer.limit with
  | none => stream
  | some limit => stream.take limit

def granted (b : Bool) : Option Unit := if b then some () else none

def takeExact (count : Nat) (stream : Bytes) : Option (Vector UInt8 count × Bytes) :=
  if h : (stream.take count).toArray.size = count then
    some (⟨(stream.take count).toArray, h⟩, stream.drop count)
  else none

def socket (peer : Peer) (wire : Wire) : (op : HelperOp) → Option (op.Answer × Wire)
  | .readToString _ => some (peer.tokenFile, wire)
  | .connect _ => some (granted peer.connects, wire)
  | .setReadTimeout _ => some (granted peer.readTimeout, wire)
  | .setWriteTimeout _ => some (granted peer.writeTimeout, wire)
  | .writeAll bytes =>
    let stream := wire.sent ++ bytes
    some (granted (peer.accepted stream = stream), { wire with sent := peer.accepted stream })
  | .flush => some (some (), wire)
  | .allocate _ => some ((), wire)
  | .readExact count =>
    match takeExact count wire.incoming with
    | some (bytes, rest) => some (some bytes, { wire with incoming := rest })
    | none => some (none, { wire with incoming := [] })

section Calls

variable (peer : Peer) (wire : Wire)

theorem outcome_writeAll {bytes : Bytes}
    (h : peer.accepted (wire.sent ++ bytes) = wire.sent ++ bytes) :
    outcome (socket peer) (writeAll bytes).run wire =
      (some (.ok ()), { wire with sent := wire.sent ++ bytes }) := by
  have hmove : socket peer wire (.writeAll bytes) =
      some (some (), { wire with sent := wire.sent ++ bytes }) := by
    simp only [socket, h, granted, decide_true, if_true]
    rfl
  exact outcome_call (S := helperSignature) hmove

theorem outcome_writeAll_refused {bytes : Bytes}
    (h : peer.accepted (wire.sent ++ bytes) ≠ wire.sent ++ bytes) :
    outcome (socket peer) (writeAll bytes).run wire =
      (some (.error .helperUnavailable),
        { wire with sent := peer.accepted (wire.sent ++ bytes) }) := by
  have hmove : socket peer wire (.writeAll bytes) =
      some (none, { wire with sent := peer.accepted (wire.sent ++ bytes) }) := by
    simp only [socket, h, granted, decide_false, Bool.false_eq_true, if_false]
    rfl
  exact outcome_call (S := helperSignature) hmove

theorem outcome_flush : outcome (socket peer) flush.run wire = (some (.ok ()), wire) := by
  have hmove : socket peer wire .flush = some (some (), wire) := rfl
  exact outcome_call (S := helperSignature) hmove

theorem outcome_allocate (count : Nat) :
    outcome (socket peer) (allocate count).run wire = (some (.ok ()), wire) := rfl

theorem outcome_readExact {count : Nat} (h : count ≤ wire.incoming.length) :
    ∃ bytes : Vector UInt8 count, bytes.toList = wire.incoming.take count ∧
      outcome (socket peer) (readExact count).run wire =
        (some (.ok bytes), { wire with incoming := wire.incoming.drop count }) := by
  have hsize : (wire.incoming.take count).toArray.size = count := by simpa using h
  have hmove : socket peer wire (.readExact count) =
      some (some ⟨_, hsize⟩, { wire with incoming := wire.incoming.drop count }) := by
    simp only [socket, takeExact, dif_pos hsize]
    rfl
  exact ⟨⟨_, hsize⟩, rfl, outcome_call (S := helperSignature) hmove⟩

theorem outcome_readExact_short {count : Nat} (h : wire.incoming.length < count) :
    outcome (socket peer) (readExact count).run wire =
      (some (.error .helperUnavailable), { wire with incoming := [] }) := by
  have hsize : ¬ (wire.incoming.take count).toArray.size = count := by simpa using h
  have hmove : socket peer wire (.readExact count) =
      some (none, { wire with incoming := [] }) := by
    simp only [socket, takeExact, dif_neg hsize]
    rfl
  exact outcome_call (S := helperSignature) hmove

end Calls

theorem toNat_fromBeBytes (bytes : Vector UInt8 4) :
    (fromBeBytes bytes).toNat = ofBigEndian bytes.toList := by
  have hlt := ofBigEndian_lt bytes.toList
  rw [Vector.length_toList] at hlt
  rw [fromBeBytes, UInt32.toNat_ofNat_of_lt' hlt]

theorem maxBodyBytes_lt : maxBodyBytes < 256 ^ 4 := by decide

/-- `read_frame` takes the first frame off the stream. -/
theorem outcome_readFrame (peer : Peer) (wire : Wire) :
    outcome (socket peer) readFrame.run wire =
      match unframe 4 maxBodyBytes wire.incoming with
      | .ok (body, rest) => (some (.ok body), { wire with incoming := rest })
      | .error .truncated => (some (.error .helperUnavailable), { wire with incoming := [] })
      | .error .oversized =>
        (some (.error .helperProtocol), { wire with incoming := wire.incoming.drop 4 }) := by
  unfold unframe readFrame
  by_cases hheader : wire.incoming.length < 4
  · rw [if_pos hheader]
    exact outcome_action_error _ (outcome_readExact_short peer wire hheader)
  obtain ⟨lenBuf, hlenBuf, hread⟩ := outcome_readExact peer wire (Nat.not_lt.mp hheader)
  have hlen : ofBigEndian (wire.incoming.take 4) = (fromBeBytes lenBuf).toNat := by
    rw [toNat_fromBeBytes, hlenBuf]
  rw [if_neg hheader, outcome_action_ok _ hread, hlen]
  dsimp only
  split_ifs with hcap hbody
  · rfl
  · rw [outcome_action_ok _ (outcome_allocate ..),
      outcome_action_error _ (outcome_readExact_short _ _ hbody)]
  · obtain ⟨body, hbytes, hreadBody⟩ := outcome_readExact peer
      { wire with incoming := wire.incoming.drop 4 } (Nat.not_lt.mp hbody)
    rw [outcome_action_ok _ (outcome_allocate ..), outcome_action_ok _ hreadBody,
      List.splitAt_eq, ← hbytes]
    rfl

/-- No more than the cap is ever allocated for a body, whatever the environment answers. -/
theorem readFrame_calls :
    readFrame.run.Calls fun op : HelperOp =>
      ∀ count, op = .allocate count → count ≤ maxBodyBytes := by
  have hread : ∀ count, (readExact count).run.Calls fun op : HelperOp =>
      ∀ n, op = .allocate n → n ≤ maxBodyBytes := by
    intro count
    refine calls_bind (calls_perform fun n h => by cases h) fun answer => ?_
    cases answer <;> trivial
  refine calls_bind (hread 4) fun lenBuf => ?_
  dsimp only
  split_ifs with hcap
  · trivial
  · refine calls_bind (calls_perform fun n h => ?_) fun _ => calls_bind (hread _) fun _ => trivial
    cases h
    exact Nat.not_lt.mp hcap

theorem accepted_part (peer : Peer) (stream : Bytes) : peer.accepted stream <+: stream := by
  unfold Peer.accepted
  cases peer.limit with
  | none => exact List.prefix_rfl
  | some limit => exact List.take_prefix ..

/-- What does not fit on its own does not fit with more behind it. -/
theorem accepted_append {peer : Peer} {stream : Bytes} (h : peer.accepted stream ≠ stream)
    (more : Bytes) : peer.accepted (stream ++ more) = peer.accepted stream := by
  unfold Peer.accepted at h ⊢
  cases hlimit : peer.limit with
  | none => simp [hlimit] at h
  | some limit =>
    have hlt : limit < stream.length := by
      rw [hlimit] at h
      exact Nat.lt_of_not_le fun hle => h (List.take_of_length_le hle)
    exact List.take_append_of_le_length (Nat.le_of_lt hlt)

theorem accepted_of_append {peer : Peer} {stream more : Bytes}
    (h : peer.accepted (stream ++ more) = stream ++ more) : peer.accepted stream = stream := by
  by_contra hne
  have hpart := accepted_part peer stream
  rw [← accepted_append hne more, h] at hpart
  obtain rfl : more = [] := by simpa using hpart.length_le
  rw [List.append_nil] at h
  exact hne h

theorem toBeBytes_ofNat {n : Nat} (h : n < 2 ^ 32) :
    toBeBytes (UInt32.ofNat n) = toBigEndian 4 n := by
  rw [toBeBytes, UInt32.toNat_ofNat_of_lt' h]

section Writing

variable (peer : Peer) (wire : Wire) {body : Bytes}

theorem writeFrame_eq (hbody : body.length ≤ maxBodyBytes) :
    writeFrame body = (do
      writeAll (toBigEndian 4 body.length)
      writeAll body
      flush) := by
  have hlt : body.length < 2 ^ 32 := Nat.lt_of_le_of_lt hbody maxBodyBytes_lt
  rw [writeFrame, if_neg (Nat.not_lt.mpr hbody), tryFromU32, if_pos hlt]
  simp only [okOr, ofExcept_ok_bind, toBeBytes_ofNat hlt]

theorem outcome_writeFrame (hbody : body.length ≤ maxBodyBytes)
    (h : peer.accepted (wire.sent ++ frame 4 body) = wire.sent ++ frame 4 body) :
    outcome (socket peer) (writeFrame body).run wire =
      (some (.ok ()), { wire with sent := wire.sent ++ frame 4 body }) := by
  rw [frame, ← List.append_assoc] at h ⊢
  rw [writeFrame_eq hbody, outcome_action_ok _ (outcome_writeAll _ _ (accepted_of_append h)),
    outcome_action_ok _ (outcome_writeAll _ _ h), outcome_flush]

theorem outcome_writeFrame_refused (hbody : body.length ≤ maxBodyBytes)
    (h : peer.accepted (wire.sent ++ frame 4 body) ≠ wire.sent ++ frame 4 body) :
    outcome (socket peer) (writeFrame body).run wire =
      (some (.error .helperUnavailable),
        { wire with sent := peer.accepted (wire.sent ++ frame 4 body) }) := by
  rw [frame, ← List.append_assoc] at h ⊢
  rw [writeFrame_eq hbody]
  by_cases hheader : peer.accepted (wire.sent ++ toBigEndian 4 body.length) =
    wire.sent ++ toBigEndian 4 body.length
  · rw [outcome_action_ok _ (outcome_writeAll _ _ hheader),
      outcome_action_error _ (outcome_writeAll_refused _ _ h)]
  · rw [accepted_append hheader, outcome_action_error _ (outcome_writeAll_refused _ _ hheader)]

end Writing

def writeFrames : List Bytes → HelperAction Unit
  | [] => pure ()
  | body :: bodies => do
    writeFrame body
    writeFrames bodies

/-- Read a number of frames, or until a read fails. -/
def readFrames : Nat → Program helperSignature (List Bytes × Option Error)
  | 0 => pure ([], none)
  | n + 1 => do
    match ← readFrame.run with
    | .error e => pure ([], some e)
    | .ok body =>
      let (bodies, failure) ← readFrames n
      pure (body :: bodies, failure)

abbrev buffer : Wire → (op : HelperOp) → Option (op.Answer × Wire) := socket Peer.boundless

theorem outcome_writeFrames {bodies : List Bytes} (h : ∀ body ∈ bodies, body.length ≤ maxBodyBytes)
    (wire : Wire) :
    outcome buffer (writeFrames bodies).run wire =
      (some (.ok ()), { wire with sent := wire.sent ++ frames 4 bodies }) := by
  induction bodies generalizing wire with
  | nil => simp [writeFrames, frames, outcome, play, pure, ExceptT.pure, ExceptT.run, ExceptT.mk]
  | cons body bodies ih =>
    obtain ⟨hbody, hbodies⟩ := List.forall_mem_cons.mp h
    have hfirst := outcome_writeFrame Peer.boundless wire hbody rfl
    rw [writeFrames, outcome_action_ok _ hfirst, ih hbodies, frames_cons, List.append_assoc]

theorem readFrames_succ_ok {n : Nat} {wire wire₁ wire₂ : Wire} {body : Bytes}
    {bodies : List Bytes} {failure : Option Error}
    (hfirst : outcome buffer readFrame.run wire = (some (.ok body), wire₁))
    (hrest : outcome buffer (readFrames n) wire₁ = (some (bodies, failure), wire₂)) :
    outcome buffer (readFrames (n + 1)) wire = (some (body :: bodies, failure), wire₂) := by
  rw [readFrames, outcome_bind _ hfirst]
  exact outcome_bind _ hrest

theorem readFrames_succ_error {n : Nat} {wire wire₁ : Wire} {e : Error}
    (hfirst : outcome buffer readFrame.run wire = (some (.error e), wire₁)) :
    outcome buffer (readFrames (n + 1)) wire = (some ([], some e), wire₁) := by
  rw [readFrames, outcome_bind _ hfirst]
  rfl

/-- Frames in front of a stream are read in order, and then what follows. -/
theorem readFrames_append {bodies : List Bytes} (h : ∀ body ∈ bodies, body.length ≤ maxBodyBytes)
    {more : Nat} {sent rest : Bytes} {wire : Wire} {tail : List Bytes} {failure : Option Error}
    (hrest : outcome buffer (readFrames more) ⟨sent, rest⟩ = (some (tail, failure), wire)) :
    outcome buffer (readFrames (bodies.length + more)) ⟨sent, frames 4 bodies ++ rest⟩ =
      (some (bodies ++ tail, failure), wire) := by
  induction bodies with
  | nil => simpa [frames] using hrest
  | cons body bodies ih =>
    obtain ⟨hbody, hbodies⟩ := List.forall_mem_cons.mp h
    have hfirst : outcome buffer readFrame.run ⟨sent, frames 4 (body :: bodies) ++ rest⟩ =
        (some (.ok body), ⟨sent, frames 4 bodies ++ rest⟩) := by
      rw [outcome_readFrame, frames_cons, List.append_assoc,
        unframe_frame maxBodyBytes_lt hbody]
    rw [List.length_cons, Nat.add_right_comm]
    exact readFrames_succ_ok hfirst (ih hbodies)

theorem readFrames_all {bodies : List Bytes} (h : ∀ body ∈ bodies, body.length ≤ maxBodyBytes)
    (sent rest : Bytes) :
    outcome buffer (readFrames bodies.length) ⟨sent, frames 4 bodies ++ rest⟩ =
      (some (bodies, none), ⟨sent, rest⟩) := by
  have hnone : outcome buffer (readFrames 0) ⟨sent, rest⟩ = (some ([], none), ⟨sent, rest⟩) := rfl
  simpa using readFrames_append h hnone

/-- Reading a stream that is cut inside a frame gives the frames before the cut. -/
theorem readFrames_cut {whole : List Bytes} {body part : Bytes}
    (h : ∀ b ∈ whole, b.length ≤ maxBodyBytes) (hbody : body.length ≤ maxBodyBytes)
    (hpart : part <+: frame 4 body) (hne : part ≠ frame 4 body) (n : Nat) :
    (outcome buffer (readFrames n) ⟨[], frames 4 whole ++ part⟩).1 =
      some (whole.take n, if n ≤ whole.length then none else some .helperUnavailable) := by
  by_cases hn : n ≤ whole.length
  · have hsplit : frames 4 whole ++ part =
        frames 4 (whole.take n) ++ (frames 4 (whole.drop n) ++ part) := by
      rw [← List.append_assoc, frames, frames, frames, ← List.flatMap_append,
        List.take_append_drop]
    have htaken : ∀ b ∈ whole.take n, b.length ≤ maxBodyBytes :=
      fun b hb => h b (List.mem_of_mem_take hb)
    have hread := readFrames_all htaken [] (frames 4 (whole.drop n) ++ part)
    rw [List.length_take_of_le hn, ← hsplit] at hread
    rw [hread, if_pos hn]
  · obtain ⟨more, rfl⟩ := Nat.exists_eq_add_of_lt (Nat.lt_of_not_le hn)
    have hfails : outcome buffer readFrame.run ⟨[], part⟩ =
        (some (.error .helperUnavailable), ⟨[], []⟩) := by
      rw [outcome_readFrame, unframe_part maxBodyBytes_lt hbody hpart hne]
    have hread := readFrames_append h (readFrames_succ_error (n := more) hfails)
    rw [if_neg hn, List.append_nil] at *
    rw [Nat.add_assoc, hread, List.take_of_length_le (by omega)]

/-- How reading one frame off a stream ends: with a body of the declared length, with a stream
that is too short, or with a declared length above the cap, of which only the header is read. -/
inductive ReadsOne (stream : Bytes) : Option (Except Error Bytes) × Wire → Prop
  | body {header body rest : Bytes} (hstream : stream = header ++ body ++ rest)
      (hheader : header.length = 4) (hdeclared : ofBigEndian header = body.length)
      (hcap : body.length ≤ maxBodyBytes) : ReadsOne stream (some (.ok body), ⟨[], rest⟩)
  | truncated (hshort : stream.length < 4 ∨ ofBigEndian (stream.take 4) ≤ maxBodyBytes ∧
      stream.length < 4 + ofBigEndian (stream.take 4)) :
      ReadsOne stream (some (.error .helperUnavailable), ⟨[], []⟩)
  | oversized (hheader : 4 ≤ stream.length) (hcap : maxBodyBytes < ofBigEndian (stream.take 4)) :
      ReadsOne stream (some (.error .helperProtocol), ⟨[], stream.drop 4⟩)

theorem readFrame_readsOne (stream : Bytes) :
    ReadsOne stream (outcome buffer readFrame.run ⟨[], stream⟩) := by
  rw [outcome_readFrame]
  cases hread : unframe 4 maxBodyBytes stream with
  | ok split =>
    obtain ⟨body, rest⟩ := split
    obtain ⟨rfl, hbody⟩ := eq_frame_of_unframe hread
    exact ReadsOne.body rfl (length_toBigEndian ..)
      (ofBigEndian_toBigEndian (Nat.lt_of_le_of_lt hbody maxBodyBytes_lt)) hbody
  | error failure =>
    unfold unframe at hread
    split_ifs at hread with hheader hcap hbody <;> obtain rfl := Except.error.inj hread
    · exact ReadsOne.truncated (Or.inl hheader)
    · exact ReadsOne.oversized (Nat.not_lt.mp hheader) hcap
    · rw [List.length_drop] at hbody
      exact ReadsOne.truncated (Or.inr ⟨Nat.not_lt.mp hcap, by omega⟩)

/-- Written frames are read back in order and to the byte, a cut stream gives the bodies in front
of the cut, and no stream makes the reader misjudge a length or allocate more than the cap. -/
theorem framing_lossless {bodies : List Bytes}
    (h : ∀ body ∈ bodies, body.length ≤ maxBodyBytes) :
    (∃ written, outcome buffer (writeFrames bodies).run ⟨[], []⟩ = (some (.ok ()), ⟨written, []⟩) ∧
      (∀ rest, outcome buffer (readFrames bodies.length) ⟨[], written ++ rest⟩ =
        (some (bodies, none), ⟨[], rest⟩)) ∧
      ∀ cut, cut <+: written → cut ≠ written → ∃ k < bodies.length, ∀ n,
        (outcome buffer (readFrames n) ⟨[], cut⟩).1 =
          some ((bodies.take k).take n, if n ≤ k then none else some .helperUnavailable)) ∧
    (∀ stream, ReadsOne stream (outcome buffer readFrame.run ⟨[], stream⟩)) ∧
    readFrame.run.Calls fun op : HelperOp =>
      ∀ count, op = .allocate count → count ≤ maxBodyBytes := by
  refine ⟨⟨frames 4 bodies, outcome_writeFrames h _, fun rest => ?_, fun cut hcut hne => ?_⟩,
    readFrame_readsOne, readFrame_calls⟩
  · exact readFrames_all h [] rest
  · obtain ⟨whole, body, rest, part, rfl, rfl, hpart, hpartial⟩ := frames_cut hcut hne
    refine ⟨whole.length, by simp, fun n => ?_⟩
    rw [List.take_left]
    exact readFrames_cut (fun b hb => h b (List.mem_append_left _ hb))
      (h body (by simp)) hpart hpartial n

theorem framing_lossless_two :
    ∃ written, outcome buffer (writeFrames [[104, 105], []]).run ⟨[], []⟩ =
        (some (.ok ()), ⟨written, []⟩) ∧
      outcome buffer (readFrames 2) ⟨[], written ++ [7]⟩ =
        (some ([[104, 105], []], none), ⟨[], [7]⟩) := by
  have hcap : ∀ body ∈ ([[104, 105], []] : List Bytes), body.length ≤ maxBodyBytes := by decide
  obtain ⟨⟨written, hwritten, hread, _⟩, _⟩ := framing_lossless hcap
  exact ⟨written, hwritten, hread [7]⟩

end MayflyAgent.HelperStreams
