import MayflyAgent.TrustedCa

/-!
What `is_valid_base64` recognises. The code counts the padding signs at the end of the bytes and
then scans the bytes by their index. The texts it accepts are those that fall into groups of four
letters, where padding signs may stand for the last one or two letters of the last group. Bytes
outside ASCII are never letters, so the bytes that pass are those of an ASCII text.
-/
namespace MayflyAgent.Base64Groups

open RustText TrustedCa

def Letters (s : Text) : Prop := ∀ c ∈ s, isBase64Letter c = true

/-- Four letters. -/
def FullGroup (group : Text) : Prop := group.length = 4 ∧ Letters group

/-- Four letters, or three of them and one padding sign, or two of them and two padding signs. -/
def LastGroup (group : Text) : Prop :=
  FullGroup group ∨ (∃ start, start.length = 3 ∧ Letters start ∧ group = start ++ ['=']) ∨
    ∃ start, start.length = 2 ∧ Letters start ∧ group = start ++ ['=', '=']

def Grouped (s : Text) : Prop :=
  ∃ (groups : List Text) (last : Text), (∀ group ∈ groups, FullGroup group) ∧ LastGroup last ∧
    s = groups.flatten ++ last

/-- A last group is a start of letters that padding signs fill up. -/
theorem lastGroup_iff {group : Text} : LastGroup group ↔ ∃ start padding, padding ≤ 2 ∧
    start.length + padding = 4 ∧ Letters start ∧ group = start ++ List.replicate padding '=' := by
  constructor
  · rintro (⟨hlength, hletters⟩ | ⟨start, hlength, hletters, rfl⟩ | ⟨start, hlength, hletters, rfl⟩)
    · exact ⟨group, 0, by omega, hlength, hletters, (List.append_nil group).symm⟩
    · exact ⟨start, 1, by omega, by omega, hletters, rfl⟩
    · exact ⟨start, 2, by omega, by omega, hletters, rfl⟩
  · rintro ⟨start, padding, hpadding, hlength, hletters, rfl⟩
    have hcases : padding = 0 ∨ padding = 1 ∨ padding = 2 := by omega
    rcases hcases with rfl | rfl | rfl
    · refine Or.inl ?_
      rw [List.replicate_zero, List.append_nil]
      exact ⟨hlength, hletters⟩
    · exact Or.inr (Or.inl ⟨start, by omega, hletters, rfl⟩)
    · exact Or.inr (Or.inr ⟨start, by omega, hletters, rfl⟩)

/-- Letters fall into groups of four when their number does. -/
theorem exists_groups (count : Nat) : ∀ s : Text, s.length = 4 * count → Letters s →
    ∃ groups : List Text, (∀ group ∈ groups, FullGroup group) ∧ s = groups.flatten := by
  induction count with
  | zero =>
    intro s hlength _
    obtain rfl := List.length_eq_zero_iff.mp hlength
    exact ⟨[], List.forall_mem_nil _, rfl⟩
  | succ count ih =>
    intro s hlength hletters
    have htail : (s.drop 4).length = 4 * count := by
      rw [List.length_drop]
      omega
    obtain ⟨groups, hgroups, hflatten⟩ :=
      ih (s.drop 4) htail fun c hc => hletters c (List.mem_of_mem_drop hc)
    have hhead : FullGroup (s.take 4) := by
      refine ⟨?_, fun c hc => hletters c (List.mem_of_mem_take hc)⟩
      rw [List.length_take]
      omega
    refine ⟨s.take 4 :: groups, List.forall_mem_cons.mpr ⟨hhead, hgroups⟩, ?_⟩
    rw [List.flatten_cons, ← hflatten, List.take_append_drop]

theorem flatten_groups {groups : List Text} (h : ∀ group ∈ groups, FullGroup group) :
    Letters groups.flatten ∧ groups.flatten.length = 4 * groups.length := by
  induction groups with
  | nil => exact ⟨List.forall_mem_nil _, rfl⟩
  | cons group groups ih =>
    obtain ⟨⟨hlength, hletters⟩, hrest⟩ := List.forall_mem_cons.mp h
    obtain ⟨hletters', hlength'⟩ := ih hrest
    rw [List.flatten_cons, List.length_append, List.length_cons]
    refine ⟨fun c hc => ?_, by omega⟩
    rcases List.mem_append.mp hc with hc | hc
    · exact hletters c hc
    · exact hletters' c hc

theorem paddedBase64_iff {s : Text} : PaddedBase64 s ↔ Grouped s := by
  constructor
  · rintro ⟨body, padding, rfl, hne, hbody, hpadding, hlength⟩
    rw [List.length_append, List.length_replicate] at hlength
    have hpos : 0 < body.length := List.length_pos_iff.mpr hne
    -- All groups but the last lie in the body.
    obtain ⟨count, hcount⟩ : ∃ count, body.length + padding = 4 * (count + 1) :=
      ⟨(body.length + padding) / 4 - 1, by omega⟩
    have htake : (body.take (4 * count)).length = 4 * count := by
      rw [List.length_take]
      omega
    obtain ⟨groups, hgroups, hflatten⟩ :=
      exists_groups count _ htake fun c hc => hbody c (List.mem_of_mem_take hc)
    refine ⟨groups, body.drop (4 * count) ++ List.replicate padding '=', hgroups, ?_, ?_⟩
    · refine lastGroup_iff.mpr ⟨_, padding, hpadding, ?_, fun c hc =>
        hbody c (List.mem_of_mem_drop hc), rfl⟩
      rw [List.length_drop]
      omega
    · rw [← hflatten, ← List.append_assoc, List.take_append_drop]
  · rintro ⟨groups, last, hgroups, hlast, rfl⟩
    obtain ⟨start, padding, hpadding, hlength, hletters, rfl⟩ := lastGroup_iff.mp hlast
    obtain ⟨hflatten, hcount⟩ := flatten_groups hgroups
    have hstart : start ≠ [] := List.ne_nil_of_length_pos (by omega)
    refine ⟨groups.flatten ++ start, padding, (List.append_assoc ..).symm,
      List.append_ne_nil_of_right_ne_nil _ hstart, fun c hc => ?_, hpadding, ?_⟩
    · rcases List.mem_append.mp hc with hc | hc
      · exact hflatten c hc
      · exact hletters c hc
    · rw [List.length_append, List.length_append, List.length_replicate, hcount]
      omega

/-- A character outside ASCII ends with a byte outside ASCII. -/
theorem exists_byte_of_not_ascii {c : Char} (h : ¬ c.toNat < 128) :
    ∃ b ∈ String.utf8EncodeChar c, ¬ b.toNat < 128 := by
  have hbyte : ∀ v : Nat, ¬ (UInt8.ofNat (v % 0x40 + 0x80)).toNat < 128 := by
    intro v
    rw [UInt8.toNat_ofNat']
    omega
  have hc : ¬ c.val.toNat ≤ 0x7f := fun hle => h (Nat.lt_succ_of_le hle)
  refine ⟨_, ?_, hbyte c.val.toNat⟩
  unfold String.utf8EncodeChar
  simp only [hc, if_false]
  split_ifs <;> simp

theorem ascii_of_bytes {s : Text} (h : ∀ b ∈ encodeUtf8 s, b.toNat < 128) :
    ∀ c ∈ s, c.toNat < 128 := by
  intro c hc
  by_contra hascii
  obtain ⟨b, hb, hbyte⟩ := exists_byte_of_not_ascii hascii
  exact hbyte (h b (List.mem_flatMap.mpr ⟨c, hc, hb⟩))

theorem isBase64Char_ascii {b : UInt8} (h : isBase64Char b = true) : b.toNat < 128 := by
  simp only [isBase64Char, Bool.or_eq_true, Bool.and_eq_true, decide_eq_true_eq, beq_iff_eq,
    UInt8.le_iff_toNat_le, ← UInt8.toNat_inj] at h
  have hvalues : (57 : UInt8).toNat = 57 ∧ (90 : UInt8).toNat = 90 ∧ (122 : UInt8).toNat = 122 ∧
    (43 : UInt8).toNat = 43 ∧ (47 : UInt8).toNat = 47 := by decide
  omega

private theorem base64Bytes : ∀ n < 128, isBase64Char (UInt8.ofNat n) = true →
    isBase64Letter (Char.ofNat n) = true := by decide

theorem isBase64Letter_of_byte {c : Char} (hc : c.toNat < 128)
    (h : isBase64Char (UInt8.ofNat c.toNat) = true) : isBase64Letter c = true := by
  have hletter := base64Bytes c.toNat hc h
  rwa [Char.ofNat_toNat] at hletter

/-- A padding sign is the only ASCII character with its byte. -/
theorem eq_padding_of_byte {c : Char} (hc : c.toNat < 128) (h : UInt8.ofNat c.toNat = 61) :
    c = '=' := by
  have hvalue : c.toNat = 61 := by
    have hbyte := congrArg UInt8.toNat h
    rw [UInt8.toNat_ofNat'] at hbyte
    have h61 : (61 : UInt8).toNat = 61 := rfl
    omega
  rw [← Char.ofNat_toNat c, hvalue]

/-- Up to some index the bytes are those of letters, from there on those of padding signs. -/
def Scanned (bytes : Bytes) (bodyLen : Nat) : Prop := ∀ i (hi : i < bytes.length),
  if i ≥ bodyLen then bytes[i] = 61 else isBase64Char bytes[i] = true

theorem scanned_of_all {bytes : Bytes} {bodyLen : Nat}
    (h : (bytes.zipIdx.all fun (b, i) => if i ≥ bodyLen then b == 61 else isBase64Char b) = true) :
    Scanned bytes bodyLen := by
  intro i hi
  have hmem : (bytes[i], i) ∈ bytes.zipIdx :=
    List.mk_mem_zipIdx_iff_getElem?.mpr (List.getElem?_eq_getElem hi)
  have hbyte := List.all_eq_true.mp h _ hmem
  simp only at hbyte
  split at hbyte
  · rename_i hle
    rw [if_pos hle]
    exact beq_iff_eq.mp hbyte
  · rename_i hlt
    rw [if_neg hlt]
    exact hbyte

theorem Scanned.ascii {bytes : Bytes} {bodyLen : Nat} (h : Scanned bytes bodyLen) :
    ∀ b ∈ bytes, b.toNat < 128 := by
  intro b hb
  obtain ⟨i, hi, rfl⟩ := List.getElem_of_mem hb
  have hbyte := h i hi
  split at hbyte
  · rw [hbyte]
    decide
  · exact isBase64Char_ascii hbyte

/-- The characters are letters and padding signs where the bytes are. -/
theorem Scanned.chars {s : Text} {bodyLen : Nat} (h : Scanned (encodeUtf8 s) bodyLen) :
    Letters (s.take bodyLen) ∧ ∀ c ∈ s.drop bodyLen, c = '=' := by
  have hascii := ascii_of_bytes h.ascii
  have hbytes := encodeUtf8_ascii hascii
  have hscan : ∀ i (hi : i < s.length), if i ≥ bodyLen then UInt8.ofNat s[i].toNat = 61 else
      isBase64Char (UInt8.ofNat s[i].toNat) = true := by
    intro i hi
    have hbyte := h i (by rw [hbytes, List.length_map]; exact hi)
    simpa [hbytes] using hbyte
  constructor
  · intro c hc
    obtain ⟨i, hi, rfl⟩ := List.getElem_of_mem hc
    rw [List.length_take] at hi
    have hchar := hscan i (by omega)
    rw [if_neg (by omega)] at hchar
    rw [List.getElem_take]
    exact isBase64Letter_of_byte (hascii _ (List.getElem_mem _)) hchar
  · intro c hc
    obtain ⟨i, hi, rfl⟩ := List.getElem_of_mem hc
    rw [List.length_drop] at hi
    have hchar := hscan (bodyLen + i) (by omega)
    rw [if_pos (by omega)] at hchar
    rw [List.getElem_drop]
    exact eq_padding_of_byte (hascii _ (List.getElem_mem _)) hchar

theorem padded_of_isValidBase64 {s : Text} (h : isValidBase64 s = true) : PaddedBase64 s := by
  unfold isValidBase64 at h
  split at h
  · cases h
  rename_i hlength
  have hlength : s ≠ [] ∧ byteLength s % 4 = 0 := by simpa using hlength
  simp only at h
  split at h
  · cases h
  rename_i hpadding
  rw [Bool.and_eq_true, decide_eq_true_eq] at h
  obtain ⟨hall, hpos⟩ := h
  have hscan := scanned_of_all hall
  have hsame : byteLength s = s.length := byteLength_ascii (ascii_of_bytes hscan.ascii)
  generalize ((encodeUtf8 s).reverse.takeWhile fun b => b == 61).length = padding at *
  rw [← byteLength, hsame] at hscan hpos
  obtain ⟨hbody, hsigns⟩ := hscan.chars
  have hrest : s.drop (s.length - padding) = List.replicate padding '=' := by
    refine List.eq_replicate_iff.mpr ⟨?_, hsigns⟩
    rw [List.length_drop]
    omega
  have hne : s.take (s.length - padding) ≠ [] := by
    refine List.ne_nil_of_length_pos ?_
    rw [List.length_take]
    omega
  refine ⟨_, padding, ?_, hne, hbody, not_lt.mp hpadding, hsame ▸ hlength.2⟩
  rw [← hrest, List.take_append_drop]

/-- The padded base64 texts, and no others, are valid. -/
theorem isValidBase64_iff (s : Text) : isValidBase64 s = true ↔ Grouped s :=
  ⟨fun h => paddedBase64_iff.mp (padded_of_isValidBase64 h),
    fun h => isValidBase64_of_padded (paddedBase64_iff.mpr h)⟩

end MayflyAgent.Base64Groups
