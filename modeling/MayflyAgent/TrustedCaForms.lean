import MayflyAgent.Base64Groups

/-!
The texts that the structural parser of a TrustedUserCAKeys file accepts. The fields of a key line
are found by splitting it at white space; the comment is what is left of the line behind its first
two fields. Both see the same fields, so a parsed key printed with single spaces is parsed again as
the same key, and whether a text is accepted is decided by its lines one by one.
-/
namespace MayflyAgent.TrustedCaForms

open RustText Words Checks Errors TrustedCa

section Fields

variable {α : Type} {sep : α → Bool}

/-- A list with fields starts, behind separators, with the first of them; the rest has the others
and does not go on with the first. -/
theorem exists_leading_field {l first : List α} {others : List (List α)}
    (h : fields sep l = first :: others) : ∃ rest, trimStart sep l = first ++ rest ∧
      fields sep rest = others ∧ first ≠ [] ∧ ∀ c ∈ first, sep c = false := by
  rcases exists_leading_word sep l with hall | ⟨gap, word, rest, rfl, hgap, hne, hword, hrest⟩
  · rw [(fields_eq_nil_iff l).mpr hall] at h
    cases h
  · rw [fields_leading hgap hne hword hrest] at h
    obtain ⟨rfl, rfl⟩ := List.cons.inj h
    refine ⟨rest, ?_, rfl, hne, hword⟩
    have hstart : trimStart sep (gap ++ (word ++ rest)) = trimStart sep (word ++ rest) :=
      List.dropWhile_append_of_pos hgap
    rw [List.append_assoc, hstart]
    refine trimStart_eq_self fun c hc => hword c ?_
    rw [List.head?_append_of_ne_nil _ hne] at hc
    exact List.mem_of_mem_head? hc

/-- A trimmed list starts and ends with members that are no separators. -/
theorem trim_ends (l : List α) : (∀ c ∈ (trim sep l).head?, sep c = false) ∧
    ∀ c ∈ (trim sep l).getLast?, sep c = false := by
  constructor
  · intro c hc
    have hprefix : trim sep l <+: trimStart sep l := List.rdropWhile_prefix _ _
    obtain ⟨rest, hrest⟩ := hprefix
    have hstart : (trimStart sep l).head? = some c := by
      rw [← hrest, List.head?_append, Option.mem_def.mp hc]
      rfl
    have hnot := List.head?_dropWhile_not sep l
    rw [trimStart] at hstart
    rw [hstart] at hnot
    exact hnot
  · intro c hc
    have hne : trim sep l ≠ [] := by
      rintro hnil
      rw [hnil] at hc
      cases hc
    have hlast : ¬ sep ((trim sep l).getLast hne) = true := List.rdropWhile_last_not _ _ hne
    rw [List.getLast?_eq_some_getLast hne] at hc
    obtain rfl := Option.some.inj hc
    exact Bool.eq_false_iff.mpr hlast

theorem trim_trim (l : List α) : trim sep (trim sep l) = trim sep l :=
  trim_eq_self (trim_ends l).1 (trim_ends l).2

end Fields

/-- What is known of a key that was parsed. -/
structure WellFormed (key : CaPublicKey) : Prop where
  algorithm : key.algorithm ∈ allowedAlgorithms
  keyData : isValidBase64 key.keyData = true
  comment : ∀ comment, key.comment = some comment → comment ≠ [] ∧ trimText comment = comment ∧
    ∀ c ∈ comment, isControl c = false

/-- The fields of the comment. -/
def commentFields (key : CaPublicKey) : List Text :=
  match key.comment with
  | none => []
  | some comment => splitWhitespace comment

/-- A control-free line with an allowed first field and a second field in base64. -/
def KeyLine (line : Text) : Prop := (∀ c ∈ line, isControl c = false) ∧
  ∃ algorithm keyData rest, splitWhitespace line = algorithm :: keyData :: rest ∧
    algorithm ∈ allowedAlgorithms ∧ isValidBase64 keyData = true

/-- A line that the parser passes over. -/
def Skipped (line : Text) : Prop := trimText line = [] ∨ (trimText line).head? = some '#'

/-- A space and the comment, when there is one. -/
def printComment : Option Text → Text
  | none => []
  | some comment => ' ' :: comment

def printKey (key : CaPublicKey) : Text :=
  key.algorithm ++ ' ' :: (key.keyData ++ printComment key.comment)

/-- The comment has the fields behind the first two. -/
theorem collectComment_fields {line algorithm keyData : Text} {others : List Text}
    (h : splitWhitespace line = algorithm :: keyData :: others) :
    ∃ rest, collectComment line algorithm keyData =
        (if trimText rest = [] then none else some (trimText rest)) ∧
      splitWhitespace rest = others ∧ ∀ c ∈ rest, c ∈ line := by
  obtain ⟨afterAlgo, hstart, hafter, _, _⟩ := exists_leading_field h
  obtain ⟨rest, hstart', hrest, _, _⟩ := exists_leading_field hafter
  refine ⟨rest, ?_, hrest, fun c hc => ?_⟩
  · have hbeq : ∀ word : Text, (word == word) = true := fun word => beq_self_eq_true word
    rw [collectComment, hstart, List.dropPrefix?_append_of_beq _ (hbeq algorithm)]
    simp only [Option.bind_eq_bind, Option.bind_some, hstart',
      List.dropPrefix?_append_of_beq _ (hbeq keyData), List.isEmpty_iff]
  · have hmem : ∀ l : Text, c ∈ trimStart isWhitespace l → c ∈ l :=
      fun l => (List.dropWhile_sublist _).mem
    refine hmem line ?_
    rw [hstart]
    refine List.mem_append_right _ (hmem afterAlgo ?_)
    rw [hstart']
    exact List.mem_append_right _ hc

/-- What parsing a line says of it. -/
theorem parse_eq_ok {line : Text} {key : CaPublicKey} : CaPublicKey.parse line = .ok key ↔
    (∀ c ∈ line, isControl c = false) ∧ ∃ others,
      splitWhitespace line = key.algorithm :: key.keyData :: others ∧
      key.algorithm ∈ allowedAlgorithms ∧ isValidBase64 key.keyData = true ∧
      key.comment = collectComment (trimText line) key.algorithm key.keyData := by
  have hcontrol : ¬ line.any isControl = true ↔ ∀ c ∈ line, isControl c = false := by simp
  simp only [CaPublicKey.parse, check_bind_eq_ok, okOr_bind_eq_ok, rejectIf_eq_ok, pure_eq_ok,
    hcontrol, splitWhitespace_trimText, not_not, Bool.not_eq_false]
  constructor
  · rintro ⟨hcontrol, _, algorithm, hfirst, keyData, hsecond, hallowed, hvalid, rfl⟩
    obtain ⟨others, hothers⟩ : ∃ others, splitWhitespace line = algorithm :: keyData :: others := by
      match splitWhitespace line, hfirst, hsecond with
      | _ :: _ :: others, rfl, rfl => exact ⟨others, rfl⟩
    exact ⟨hcontrol, others, hothers, hallowed, hvalid, rfl⟩
  · rintro ⟨hcontrol, others, hfields, hallowed, hvalid, hcomment⟩
    have hblank : trimText line ≠ [] := by
      intro hnil
      rw [← splitWhitespace_trimText, hnil] at hfields
      cases hfields
    rw [hfields]
    exact ⟨hcontrol, hblank, key.algorithm, rfl, key.keyData, rfl, hallowed, hvalid,
      by rw [← hcomment]⟩

/-- The fields of an accepted line are those of its key. -/
theorem parse_fields {line : Text} {key : CaPublicKey} (h : CaPublicKey.parse line = .ok key) :
    splitWhitespace line = key.algorithm :: key.keyData :: commentFields key := by
  obtain ⟨_, others, hfields, _, _, hcomment⟩ := parse_eq_ok.mp h
  obtain ⟨rest, hcollect, hrest, _⟩ :=
    collectComment_fields (splitWhitespace_trimText line ▸ hfields)
  rw [hfields, commentFields, hcomment, hcollect]
  by_cases hnil : trimText rest = []
  · rw [if_pos hnil, ← hrest, ← splitWhitespace_trimText, hnil]
    rfl
  · rw [if_neg hnil, ← hrest, ← splitWhitespace_trimText]

theorem parse_wellFormed {line : Text} {key : CaPublicKey} (h : CaPublicKey.parse line = .ok key) :
    WellFormed key := by
  obtain ⟨hcontrol, others, hfields, hallowed, hvalid, hcomment⟩ := parse_eq_ok.mp h
  obtain ⟨rest, hcollect, _, hline⟩ :=
    collectComment_fields (splitWhitespace_trimText line ▸ hfields)
  refine ⟨hallowed, hvalid, fun comment hsome => ?_⟩
  rw [hcomment, hcollect] at hsome
  split at hsome
  · cases hsome
  rename_i hne
  obtain rfl := Option.some.inj hsome
  refine ⟨hne, trim_trim rest, fun c hc => hcontrol c ?_⟩
  have hmem : ∀ l : Text, c ∈ trimText l → c ∈ l := fun l hl =>
    (List.dropWhile_sublist _).mem ((List.rdropWhile_prefix _ _).mem hl)
  exact hmem line (hline c (hmem rest hc))

theorem exists_key_iff {line : Text} :
    (∃ key, CaPublicKey.parse line = .ok key) ↔ KeyLine line := by
  constructor
  · rintro ⟨key, hkey⟩
    obtain ⟨hcontrol, others, hfields, hallowed, hvalid, _⟩ := parse_eq_ok.mp hkey
    exact ⟨hcontrol, _, _, others, hfields, hallowed, hvalid⟩
  · rintro ⟨hcontrol, algorithm, keyData, rest, hfields, hallowed, hvalid⟩
    let comment := collectComment (trimText line) algorithm keyData
    exact ⟨⟨algorithm, keyData, comment⟩,
      parse_eq_ok.mpr ⟨hcontrol, rest, hfields, hallowed, hvalid, rfl⟩⟩

def Graphic (word : Text) : Prop := word ≠ [] ∧ ∀ c ∈ word, isAsciiGraphic c = true

theorem Graphic.no_whitespace {word : Text} (h : Graphic word) :
    ∀ c ∈ word, isWhitespace c = false := fun c hc => isWhitespace_graphic (h.2 c hc)

theorem Graphic.no_control {word : Text} (h : Graphic word) :
    ∀ c ∈ word, isControl c = false := fun c hc => isControl_graphic (h.2 c hc)

/-- What starts with a word of graphic characters has nothing to trim in front. -/
theorem Graphic.trimStart_append {word : Text} (h : Graphic word) (rest : Text) :
    trimStart isWhitespace (word ++ rest) = word ++ rest := by
  refine trimStart_eq_self fun c hc => h.no_whitespace c ?_
  rw [List.head?_append_of_ne_nil _ h.1] at hc
  exact List.mem_of_mem_head? hc

theorem allowed_graphic : ∀ algorithm ∈ allowedAlgorithms, Graphic algorithm := by
  have hall : allowedAlgorithms.all
      (fun algorithm => !algorithm.isEmpty && algorithm.all isAsciiGraphic) = true := by
    decide +kernel
  intro algorithm hallowed
  have hword := List.all_eq_true.mp hall algorithm hallowed
  rw [Bool.and_eq_true, List.all_eq_true] at hword
  exact ⟨by simpa using hword.1, hword.2⟩

theorem allowed_head : ∀ algorithm ∈ allowedAlgorithms, algorithm.head? ≠ some '#' := by
  decide +kernel

theorem base64_graphic {keyData : Text} (h : isValidBase64 keyData = true) : Graphic keyData :=
  have hpadded := Base64Groups.padded_of_isValidBase64 h
  ⟨hpadded.ne_nil, hpadded.graphic⟩

section Printed

variable {key : CaPublicKey} (h : WellFormed key)

include h

theorem printComment_control : ∀ c ∈ printComment key.comment, isControl c = false := by
  cases hcomment : key.comment with
  | none => exact List.forall_mem_nil _
  | some comment =>
    exact List.forall_mem_cons.mpr ⟨by decide, (h.comment comment hcomment).2.2⟩

theorem printKey_control : ∀ c ∈ printKey key, isControl c = false := by
  intro c hc
  simp only [printKey, List.mem_append, List.mem_cons] at hc
  rcases hc with hc | rfl | hc | hc
  · exact (allowed_graphic _ h.algorithm).no_control c hc
  · decide
  · exact (base64_graphic h.keyData).no_control c hc
  · exact printComment_control h c hc

theorem splitWhitespace_printKey :
    splitWhitespace (printKey key) = key.algorithm :: key.keyData :: commentFields key := by
  have halgorithm := allowed_graphic _ h.algorithm
  have hkeyData := base64_graphic h.keyData
  unfold splitWhitespace printKey commentFields
  rw [fields_word_append halgorithm.1 halgorithm.no_whitespace (by decide)]
  cases key.comment with
  | none =>
    rw [printComment, List.append_nil, fields_word hkeyData.1 hkeyData.no_whitespace]
  | some comment =>
    rw [printComment, fields_word_append hkeyData.1 hkeyData.no_whitespace (by decide)]
    rfl

/-- A printed key ends where its comment or its key data end. -/
theorem trimText_printKey : trimText (printKey key) = printKey key := by
  have hkeyData := base64_graphic h.keyData
  have hstart := (allowed_graphic _ h.algorithm).trimStart_append
    (' ' :: (key.keyData ++ printComment key.comment))
  have hend : ∀ c ∈ (printKey key).getLast?, isWhitespace c = false := by
    intro c hc
    cases hcomment : key.comment with
    | none =>
      have hsplit : printKey key = (key.algorithm ++ [' ']) ++ key.keyData := by
        simp [printKey, hcomment, printComment]
      rw [hsplit, List.getLast?_append_of_ne_nil _ hkeyData.1] at hc
      exact hkeyData.no_whitespace c (List.mem_of_mem_getLast? hc)
    | some comment =>
      obtain ⟨hne, htrim, _⟩ := h.comment comment hcomment
      have hsplit : printKey key = (key.algorithm ++ ' ' :: (key.keyData ++ [' '])) ++ comment := by
        simp [printKey, hcomment, printComment]
      rw [hsplit, List.getLast?_append_of_ne_nil _ hne, ← htrim] at hc
      exact (trim_ends comment).2 c hc
  rw [trimText, trim, printKey, hstart, ← printKey, trimEnd, List.rdropWhile_eq_self_iff]
  intro hne hlast
  rw [hend _ (List.getLast?_eq_some_getLast hne)] at hlast
  cases hlast

theorem collectComment_printKey :
    collectComment (printKey key) key.algorithm key.keyData = key.comment := by
  have hbeq : ∀ word : Text, (word == word) = true := fun word => beq_self_eq_true word
  have hspace : ∀ l : Text, trimStart isWhitespace (' ' :: l) = trimStart isWhitespace l :=
    trimStart_cons (by decide)
  rw [collectComment, printKey, (allowed_graphic _ h.algorithm).trimStart_append,
    List.dropPrefix?_append_of_beq _ (hbeq key.algorithm)]
  simp only [Option.bind_eq_bind, Option.bind_some, hspace,
    (base64_graphic h.keyData).trimStart_append,
    List.dropPrefix?_append_of_beq _ (hbeq key.keyData)]
  cases hcomment : key.comment with
  | none => rfl
  | some comment =>
    obtain ⟨hne, htrim, _⟩ := h.comment comment hcomment
    have hrest : trimText (printComment (some comment)) = comment := by
      rw [trimText, trim, printComment, hspace]
      exact htrim
    rw [hrest, if_neg (by simpa using hne)]

theorem parse_printKey : CaPublicKey.parse (printKey key) = .ok key :=
  parse_eq_ok.mpr ⟨printKey_control h, _, splitWhitespace_printKey h, h.algorithm, h.keyData, by
    rw [trimText_printKey h, collectComment_printKey h]⟩

/-- A printed key is neither blank nor a comment. -/
theorem printKey_kept : ¬ Skipped (printKey key) := by
  have hne := (allowed_graphic _ h.algorithm).1
  rw [Skipped, trimText_printKey h, printKey, List.head?_append_of_ne_nil _ hne]
  rintro (hnil | hsign)
  · exact List.append_ne_nil_of_left_ne_nil hne _ hnil
  · exact allowed_head _ h.algorithm hsign

end Printed

/-- One line for each key. -/
def printKeys (keys : TrustedCaKeys) : Text := keys.keys.flatMap fun key => printKey key ++ ['\n']

theorem parseLines_skipped {line : Text} (rest : List Text) (h : Skipped line) :
    parseLines (line :: rest) = parseLines rest := if_pos h

theorem parseLines_key {line : Text} {rest : List Text} {keys : List CaPublicKey}
    (h : ¬ Skipped line) : parseLines (line :: rest) = .ok keys ↔
      ∃ key others, CaPublicKey.parse line = .ok key ∧ parseLines rest = .ok others ∧
        keys = key :: others := by
  have hkept : parseLines (line :: rest) = (do
      let key ← (CaPublicKey.parse line).mapError .invalidTrustedCa
      let keys ← parseLines rest
      pure (key :: keys)) := if_neg h
  simp only [hkept, bind_eq_ok, mapError_eq_ok, pure_eq_ok]
  constructor
  · rintro ⟨key, hkey, others, hothers, rfl⟩
    exact ⟨key, others, hkey, hothers, rfl⟩
  · rintro ⟨key, others, hkey, hothers, rfl⟩
    exact ⟨key, hkey, others, hothers, rfl⟩

theorem parseLines_ok_iff (pieces : List Text) :
    (∃ keys, parseLines pieces = .ok keys) ↔ ∀ line ∈ pieces, Skipped line ∨ KeyLine line := by
  induction pieces with
  | nil => exact ⟨fun _ => List.forall_mem_nil _, fun _ => ⟨[], rfl⟩⟩
  | cons line rest ih =>
    rw [List.forall_mem_cons, ← ih]
    by_cases hskip : Skipped line
    · rw [parseLines_skipped rest hskip]
      exact ⟨fun h => ⟨Or.inl hskip, h⟩, fun h => h.2⟩
    · simp only [parseLines_key hskip, ← exists_key_iff]
      constructor
      · rintro ⟨_, key, others, hkey, hothers, rfl⟩
        exact ⟨Or.inr ⟨key, hkey⟩, others, hothers⟩
      · rintro ⟨hskip' | ⟨key, hkey⟩, others, hothers⟩
        · exact absurd hskip' hskip
        · exact ⟨_, key, others, hkey, hothers, rfl⟩

theorem parseLines_wellFormed {pieces : List Text} {keys : List CaPublicKey}
    (h : parseLines pieces = .ok keys) : ∀ key ∈ keys, WellFormed key := by
  induction pieces generalizing keys with
  | nil =>
    obtain rfl := Except.ok.inj h
    exact List.forall_mem_nil _
  | cons line rest ih =>
    by_cases hskip : Skipped line
    · rw [parseLines_skipped rest hskip] at h
      exact ih h
    · obtain ⟨key, others, hkey, hothers, rfl⟩ := (parseLines_key hskip).mp h
      exact List.forall_mem_cons.mpr ⟨parse_wellFormed hkey, ih hothers⟩

theorem parseLines_printed {keys : List CaPublicKey} (h : ∀ key ∈ keys, WellFormed key) :
    parseLines (keys.map printKey) = .ok keys := by
  induction keys with
  | nil => rfl
  | cons key keys ih =>
    obtain ⟨hkey, hkeys⟩ := List.forall_mem_cons.mp h
    exact (parseLines_key (printKey_kept hkey)).mpr
      ⟨key, keys, parse_printKey hkey, ih hkeys, rfl⟩

theorem parse_eq_parseLines {contents : Text} {keys : TrustedCaKeys} :
    TrustedCaKeys.parse contents = .ok keys ↔ parseLines (lines contents) = .ok keys.keys := by
  rw [TrustedCaKeys.parse, bind_eq_ok]
  constructor
  · rintro ⟨parsed, hparsed, hkeys⟩
    obtain rfl := pure_eq_ok.mp hkeys
    exact hparsed
  · exact fun h => ⟨keys.keys, h, rfl⟩

/-- The printed keys fall into the lines they were printed as. -/
theorem parse_printKeys {keys : TrustedCaKeys} (h : ∀ key ∈ keys.keys, WellFormed key) :
    TrustedCaKeys.parse (printKeys keys) = .ok keys := by
  have hlines : lines (printKeys keys) = keys.keys.map printKey := by
    rw [printKeys, ← List.flatMap_map printKey fun line => line ++ ['\n']]
    refine lines_flatMap _ fun line hline => ?_
    obtain ⟨key, hkey, rfl⟩ := List.mem_map.mp hline
    exact printKey_control (h key hkey)
  rw [parse_eq_parseLines, hlines]
  exact parseLines_printed h

/-- Parsing is a normal form: what was parsed is parsed again from its printed keys, each accepted
line has the fields of its key, and a text is accepted if and only if all of its lines are. -/
theorem parse_normal_form (contents : Text) :
    (∀ keys, TrustedCaKeys.parse contents = .ok keys →
      TrustedCaKeys.parse (printKeys keys) = .ok keys) ∧
    (∀ line key, CaPublicKey.parse line = .ok key →
      splitWhitespace line = key.algorithm :: key.keyData :: commentFields key) ∧
    ((∃ keys, TrustedCaKeys.parse contents = .ok keys) ↔
      ∀ line ∈ lines contents, Skipped line ∨ KeyLine line) := by
  refine ⟨fun keys hkeys => ?_, fun _ _ => parse_fields, ?_⟩
  · exact parse_printKeys (parseLines_wellFormed (parse_eq_parseLines.mp hkeys))
  · rw [← parseLines_ok_iff]
    constructor
    · rintro ⟨keys, hkeys⟩
      exact ⟨keys.keys, parse_eq_parseLines.mp hkeys⟩
    · rintro ⟨keys, hkeys⟩
      exact ⟨⟨keys⟩, parse_eq_parseLines.mpr hkeys⟩

end MayflyAgent.TrustedCaForms
