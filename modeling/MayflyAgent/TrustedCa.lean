import MayflyAgent.RustText
import MayflyAgent.Checks
import MayflyAgent.Errors
import Mathlib.Data.List.Basic

/-!
The structural parser of a TrustedUserCAKeys file, after `ssh/trusted_ca.rs`: one
key per line, blank lines and lines starting with a number sign skipped, each key
an allowed algorithm, a base64 blob and an optional comment.
-/
namespace MayflyAgent.TrustedCa

open RustText Words Checks Errors

def allowedAlgorithms : List Text :=
  [text "ssh-ed25519", text "ssh-rsa", text "rsa-sha2-256", text "rsa-sha2-512",
    text "ecdsa-sha2-nistp256", text "ecdsa-sha2-nistp384", text "ecdsa-sha2-nistp521",
    text "sk-ssh-ed25519@openssh.com", text "sk-ecdsa-sha2-nistp256@openssh.com"]

structure CaPublicKey where
  algorithm : Text
  keyData : Text
  comment : Option Text
  deriving DecidableEq

structure TrustedCaKeys where
  keys : List CaPublicKey
  deriving DecidableEq

/-- Letters, digits, plus and slash. -/
def isBase64Char (b : UInt8) : Bool :=
  (48 ≤ b && b ≤ 57) || (65 ≤ b && b ≤ 90) || (97 ≤ b && b ≤ 122) || b == 43 || b == 47

def isValidBase64 (s : Text) : Bool :=
  if s.isEmpty || byteLength s % 4 ≠ 0 then false
  else
    let bytes := encodeUtf8 s
    let padding := (bytes.reverse.takeWhile fun b => b == 61).length
    if padding > 2 then false
    else
      let bodyLen := bytes.length - padding
      (bytes.zipIdx.all fun (b, i) => if i ≥ bodyLen then b == 61 else isBase64Char b) &&
        bodyLen > 0

/-- The trimmed rest of the line behind its first two fields, when there is one. -/
def collectComment (line algorithm keyData : Text) : Option Text := do
  let afterAlgo ← List.dropPrefix? (trimStart isWhitespace line) algorithm
  let afterKey ← List.dropPrefix? (trimStart isWhitespace afterAlgo) keyData
  let comment := trimText afterKey
  if comment.isEmpty then none else some comment

def CaPublicKey.parse (line : Text) : Except TrustedCaError CaPublicKey := do
  rejectIf (line.any isControl = true) .illegalCharacter
  let trimmed := trimText line
  rejectIf (trimmed = []) .empty
  let tokens := splitWhitespace trimmed
  let algorithm ← okOr tokens[0]? .malformed
  let keyData ← okOr tokens[1]? .malformed
  let comment := collectComment trimmed algorithm keyData
  rejectIf (algorithm ∉ allowedAlgorithms) .disallowedAlgorithm
  rejectIf (isValidBase64 keyData = false) .invalidEncoding
  pure { algorithm := algorithm, keyData := keyData, comment := comment }

/-- The loop of `TrustedCaKeys::parse` over the lines of the file. -/
def parseLines : List Text → Except Error (List CaPublicKey)
  | [] => .ok []
  | line :: rest =>
    let trimmed := trimText line
    if trimmed = [] ∨ trimmed.head? = some '#' then parseLines rest
    else do
      let key ← (CaPublicKey.parse line).mapError .invalidTrustedCa
      let keys ← parseLines rest
      pure (key :: keys)

def TrustedCaKeys.parse (contents : Text) : Except Error TrustedCaKeys := do
  let keys ← parseLines (lines contents)
  pure { keys := keys }

def isBase64Letter (c : Char) : Bool :=
  ('0' ≤ c && c ≤ '9') || ('A' ≤ c && c ≤ 'Z') || ('a' ≤ c && c ≤ 'z') || c == '+' || c == '/'

/-- Full groups of four letters, the last one ending with at most two padding signs. -/
def PaddedBase64 (s : Text) : Prop :=
  ∃ body padding, s = body ++ List.replicate padding '=' ∧ body ≠ [] ∧
    (∀ c ∈ body, isBase64Letter c = true) ∧ padding ≤ 2 ∧ s.length % 4 = 0

private theorem isBase64Letter_ascii {c : Char} (h : isBase64Letter c = true) : c.toNat < 128 := by
  have hle : ∀ d : Char, c ≤ d → c.toNat ≤ d.toNat := fun d hd => UInt32.le_iff_toNat_le.mp hd
  simp only [isBase64Letter, Bool.or_eq_true, Bool.and_eq_true, decide_eq_true_eq,
    beq_iff_eq] at h
  rcases h with (((⟨_, h⟩ | ⟨_, h⟩) | ⟨_, h⟩) | rfl) | rfl
  · exact lt_of_le_of_lt (hle _ h) (by decide)
  · exact lt_of_le_of_lt (hle _ h) (by decide)
  · exact lt_of_le_of_lt (hle _ h) (by decide)
  · decide
  · decide

private theorem base64Letters : ∀ n < 128, isBase64Letter (Char.ofNat n) = true →
    isBase64Char (UInt8.ofNat n) = true ∧ (UInt8.ofNat n == 61) = false ∧
      isAsciiGraphic (Char.ofNat n) = true := by decide

theorem isBase64Letter_spec {c : Char} (h : isBase64Letter c = true) :
    isBase64Char (UInt8.ofNat c.toNat) = true ∧ (UInt8.ofNat c.toNat == 61) = false ∧
      isAsciiGraphic c = true := by
  have hspec := base64Letters c.toNat (isBase64Letter_ascii h)
  rw [Char.ofNat_toNat] at hspec
  exact hspec h

theorem PaddedBase64.graphic {s : Text} (h : PaddedBase64 s) :
    ∀ c ∈ s, isAsciiGraphic c = true := by
  obtain ⟨body, padding, rfl, _, hbody, _, _⟩ := h
  intro c hc
  rcases List.mem_append.mp hc with hc | hc
  · exact (isBase64Letter_spec (hbody c hc)).2.2
  · rw [List.eq_of_mem_replicate hc]
    decide

theorem PaddedBase64.ne_nil {s : Text} (h : PaddedBase64 s) : s ≠ [] := by
  obtain ⟨body, padding, rfl, hne, _⟩ := h
  exact List.append_ne_nil_of_left_ne_nil hne _

/-- The bytes are the letters of the body and then the padding signs. -/
theorem PaddedBase64.bytes {body : Text} (padding : Nat)
    (hbody : ∀ c ∈ body, isBase64Letter c = true) :
    encodeUtf8 (body ++ List.replicate padding '=') =
      (body.map fun c => UInt8.ofNat c.toNat) ++ List.replicate padding 61 := by
  rw [encodeUtf8_append, encodeUtf8_ascii fun c hc => isBase64Letter_ascii (hbody c hc),
    encodeUtf8_ascii fun c hc => by rw [List.eq_of_mem_replicate hc]; decide,
    List.map_replicate]
  rfl

theorem PaddedBase64.paddingLength {body : Text} (padding : Nat)
    (hbody : ∀ c ∈ body, isBase64Letter c = true) :
    ((encodeUtf8 (body ++ List.replicate padding '=')).reverse.takeWhile
      fun b => b == 61).length = padding := by
  have hstop : ((body.map fun c => UInt8.ofNat c.toNat).reverse.takeWhile
      fun b => b == 61) = [] := by
    rw [← List.map_reverse]
    cases hreverse : body.reverse with
    | nil => rfl
    | cons c rest =>
      have hc := hbody c (List.mem_reverse.mp (by rw [hreverse]; exact List.mem_cons_self ..))
      rw [List.map_cons, List.takeWhile_cons_of_neg]
      rw [(isBase64Letter_spec hc).2.1]
      decide
  rw [PaddedBase64.bytes padding hbody, List.reverse_append, List.reverse_replicate,
    List.takeWhile_append_of_pos, hstop, List.append_nil, List.length_replicate]
  intro b hb
  rw [List.eq_of_mem_replicate hb]
  rfl

theorem isValidBase64_of_padded {s : Text} (h : PaddedBase64 s) : isValidBase64 s = true := by
  have hempty := h.ne_nil
  obtain ⟨body, padding, rfl, hne, hbody, hpadding, hlength⟩ := h
  have hbytes := PaddedBase64.bytes padding hbody
  have hlen : (encodeUtf8 (body ++ List.replicate padding '=')).length = body.length + padding := by
    rw [hbytes, List.length_append, List.length_map, List.length_replicate]
  have hall : ((encodeUtf8 (body ++ List.replicate padding '=')).zipIdx.all fun (b, i) =>
      if i ≥ body.length then b == 61 else isBase64Char b) = true := by
    rw [List.all_eq_true]
    rintro ⟨b, i⟩ hmem
    rw [List.mk_mem_zipIdx_iff_getElem?, hbytes] at hmem
    by_cases hi : i < body.length
    · rw [List.getElem?_append_left (by simpa using hi), List.getElem?_map,
        List.getElem?_eq_getElem hi] at hmem
      obtain rfl := Option.some.inj hmem
      simp only [Nat.not_le.mpr hi, if_false]
      exact (isBase64Letter_spec (hbody _ (List.getElem_mem hi))).1
    · rw [List.getElem?_append_right (by simpa using hi), List.getElem?_replicate] at hmem
      simp only [ge_iff_le, Nat.not_lt.mp hi, if_true]
      split at hmem
      · obtain rfl := Option.some.inj hmem
        rfl
      · cases hmem
  have hlength' : byteLength (body ++ List.replicate padding '=') % 4 = 0 := by
    rw [byteLength, hlen]
    simpa using hlength
  have hpos : 0 < body.length := List.length_pos_iff.mpr hne
  unfold isValidBase64
  rw [if_neg (by simp [hempty, hlength'])]
  simp only [PaddedBase64.paddingLength padding hbody, hlen, Nat.add_sub_cancel]
  rw [if_neg (Nat.not_lt.mpr hpadding), hall]
  simpa using hpos

end MayflyAgent.TrustedCa
