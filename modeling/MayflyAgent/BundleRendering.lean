import MayflyAgent.BundleValidation
import MayflyAgent.TrustedCa

/-!
The rendered file read back by the structural parser. A rendered file is four
header lines, all comments, and one line of three fields for each key. None of
the fields contains white space or control characters, so the parser finds the
same lines and the same fields again.
-/
namespace MayflyAgent.BundleRendering

open RustText Words Checks Errors Bundles BundleValidation TrustedCa

/-- A field of a rendered line. -/
def Printable (word : Text) : Prop := ∀ c ∈ word, isAsciiGraphic c = true

theorem Printable.append {a b : Text} (ha : Printable a) (hb : Printable b) :
    Printable (a ++ b) := by
  intro c hc
  rcases List.mem_append.mp hc with hc | hc
  · exact ha c hc
  · exact hb c hc

theorem Printable.no_whitespace {word : Text} (h : Printable word) :
    ∀ c ∈ word, isWhitespace c = false := fun c hc => isWhitespace_graphic (h c hc)

theorem Printable.no_control {word : Text} (h : Printable word) :
    ∀ c ∈ word, isControl c = false := fun c hc => isControl_graphic (h c hc)

/-- Three fields with single spaces between them. -/
def threeFields (algorithm blob comment : Text) : Text :=
  algorithm ++ ' ' :: (blob ++ ' ' :: comment)

section ThreeFields

variable {algorithm blob comment : Text} (halgorithm : Printable algorithm)
  (hblob : Printable blob) (hcomment : Printable comment) (hne : algorithm ≠ [])
  (hblobNe : blob ≠ []) (hcommentNe : comment ≠ [])

include halgorithm hblob hcomment in
theorem threeFields_isControl : ∀ c ∈ threeFields algorithm blob comment, isControl c = false := by
  intro c hc
  simp only [threeFields, List.mem_append, List.mem_cons] at hc
  rcases hc with hc | rfl | hc | rfl | hc
  · exact halgorithm.no_control c hc
  · decide
  · exact hblob.no_control c hc
  · decide
  · exact hcomment.no_control c hc

include halgorithm hblob hcomment hne hblobNe hcommentNe in
theorem splitWhitespace_threeFields :
    splitWhitespace (threeFields algorithm blob comment) = [algorithm, blob, comment] := by
  unfold splitWhitespace threeFields
  rw [fields_word_append hne halgorithm.no_whitespace (by decide),
    fields_word_append hblobNe hblob.no_whitespace (by decide),
    fields_word hcommentNe hcomment.no_whitespace]

include halgorithm hne in
theorem threeFields_head :
    ∀ c ∈ (threeFields algorithm blob comment).head?, isWhitespace c = false := by
  intro c hc
  cases algorithm with
  | nil => exact absurd rfl hne
  | cons d rest =>
    obtain rfl : d = c := by simpa [threeFields] using hc
    exact halgorithm.no_whitespace d (List.mem_cons_self ..)

include halgorithm hcomment hne hcommentNe in
theorem trimText_threeFields :
    trimText (threeFields algorithm blob comment) = threeFields algorithm blob comment := by
  refine trim_eq_self (threeFields_head halgorithm hne) ?_
  intro c hc
  have hsplit : threeFields algorithm blob comment =
      (algorithm ++ ' ' :: (blob ++ [' '])) ++ comment := by simp [threeFields]
  rw [hsplit, List.getLast?_append_of_ne_nil _ hcommentNe] at hc
  exact hcomment.no_whitespace c (List.mem_of_mem_getLast? hc)

include halgorithm hblob hcomment hne hblobNe hcommentNe in
theorem collectComment_threeFields :
    collectComment (threeFields algorithm blob comment) algorithm blob = some comment := by
  have hspace : isWhitespace ' ' = true := by decide
  have hstart : trimStart isWhitespace (threeFields algorithm blob comment) =
      threeFields algorithm blob comment := trimStart_eq_self (threeFields_head halgorithm hne)
  have hblobHead : trimStart isWhitespace (' ' :: (blob ++ ' ' :: comment)) =
      blob ++ ' ' :: comment := by
    rw [trimStart_cons hspace, trimStart_eq_self]
    intro c hc
    rw [List.head?_append_of_ne_nil _ hblobNe] at hc
    exact hblob.no_whitespace c (List.mem_of_mem_head? hc)
  have hcommentTrim : trimText (' ' :: comment) = comment := by
    have h : trimText (' ' :: comment) = trimText comment := by
      rw [trimText, trim, trimStart_cons hspace]
      rfl
    rw [h, trimText_eq_self hcomment.no_whitespace]
  have hbeq : ∀ word : Text, (word == word) = true := fun word => beq_self_eq_true word
  rw [collectComment, hstart, threeFields, List.dropPrefix?_append_of_beq _ (hbeq algorithm)]
  simp only [Option.bind_eq_bind, Option.bind_some, hblobHead,
    List.dropPrefix?_append_of_beq _ (hbeq blob), hcommentTrim]
  rw [if_neg (by simpa using hcommentNe)]

include halgorithm hblob hcomment hne hblobNe hcommentNe in
/-- A line of three printable fields, with an allowed algorithm and a valid blob, is
read as these fields. -/
theorem parse_threeFields (hallowed : algorithm ∈ allowedAlgorithms)
    (hvalid : isValidBase64 blob = true) :
    CaPublicKey.parse (threeFields algorithm blob comment) =
      .ok { algorithm := algorithm, keyData := blob, comment := some comment } := by
  have hcontrol : ¬ (threeFields algorithm blob comment).any isControl = true := by
    rw [List.any_eq_true]
    rintro ⟨c, hc, htrue⟩
    rw [threeFields_isControl halgorithm hblob hcomment c hc] at htrue
    exact Bool.noConfusion htrue
  have hempty : threeFields algorithm blob comment ≠ [] := by simp [threeFields]
  simp only [CaPublicKey.parse, check_bind_eq_ok, okOr_bind_eq_ok, rejectIf_eq_ok, pure_eq_ok,
    trimText_threeFields halgorithm hcomment hne hcommentNe,
    splitWhitespace_threeFields halgorithm hblob hcomment hne hblobNe hcommentNe]
  refine ⟨hcontrol, hempty, algorithm, rfl, blob, rfl, not_not.mpr hallowed, ?_, ?_⟩
  · rw [hvalid]
    decide
  · rw [collectComment_threeFields halgorithm hblob hcomment hne hblobNe hcommentNe]

end ThreeFields

def headerLines (bundle : CaBundle) : List Text :=
  [text "# Managed by mayfly-agent. DO NOT EDIT.",
    text "# bundle_version: " ++ decimal bundle.bundleVersion.toNat,
    text "# generation: " ++ decimal bundle.generation.toNat,
    text "# fingerprint: " ++ bundle.fingerprint]

theorem render_eq_lines (bundle : CaBundle) :
    renderTrustedUserCaKeys bundle =
      (headerLines bundle ++ bundle.keys.map renderKeyLine).flatMap fun line => line ++ ['\n'] := by
  have hmanaged : text "# Managed by mayfly-agent. DO NOT EDIT.\n" =
      text "# Managed by mayfly-agent. DO NOT EDIT." ++ ['\n'] := by decide +kernel
  simp only [renderTrustedUserCaKeys, headerLines, hmanaged, List.flatMap_append,
    List.flatMap_cons, List.flatMap_nil, List.flatMap_map, List.append_nil, List.append_assoc]

/-- Lines that start with a number sign are skipped. -/
theorem parseLines_comments (comments rest : List Text)
    (h : ∀ line ∈ comments, line.head? = some '#') :
    parseLines (comments ++ rest) = parseLines rest := by
  induction comments with
  | nil => rfl
  | cons line comments ih =>
    obtain ⟨tail, rfl⟩ := List.head?_eq_some_iff.mp (h line (List.mem_cons_self ..))
    have hhead : (trimText ('#' :: tail)).head? = some '#' := trim_cons_head (by decide) tail
    rw [List.cons_append, parseLines]
    simp only [hhead, or_true, if_true]
    exact ih fun l hl => h l (List.mem_cons_of_mem _ hl)

/-- The entry the parser finds for a key of the bundle. -/
def trustedKey (key : CaBundleKey) : CaPublicKey where
  algorithm := text "ssh-ed25519"
  keyData := (splitWhitespace key.publicKey)[1]?.getD []
  comment := some (text "mayfly:" ++ key.keyId)

/-- A key whose line starts with the Ed25519 algorithm and a base64 blob. -/
structure Renderable (key : CaBundleKey) : Prop where
  keyId : Printable key.keyId
  publicKey : ∃ blob rest, splitWhitespace key.publicKey = text "ssh-ed25519" :: blob :: rest ∧
    PaddedBase64 blob

theorem renderKeyLine_eq {key : CaBundleKey} (h : Renderable key) :
    renderKeyLine key = threeFields (text "ssh-ed25519") (trustedKey key).keyData
      (text "mayfly:" ++ key.keyId) := by
  obtain ⟨blob, rest, hfields, _⟩ := h.publicKey
  have hspace : text " mayfly:" = ' ' :: text "mayfly:" := by decide +kernel
  simp [renderKeyLine, trustedKey, threeFields, hfields, hspace]

theorem Renderable.paddedBlob {key : CaBundleKey} (h : Renderable key) :
    PaddedBase64 (trustedKey key).keyData := by
  obtain ⟨blob, rest, hfields, hblob⟩ := h.publicKey
  simpa [trustedKey, hfields] using hblob

theorem Renderable.comment {key : CaBundleKey} (h : Renderable key) :
    Printable (text "mayfly:" ++ key.keyId) := by
  have hprefix : Printable (text "mayfly:") := List.all_eq_true.mp (by decide +kernel)
  exact hprefix.append h.keyId

private theorem ed25519_printable : Printable (text "ssh-ed25519") :=
  List.all_eq_true.mp (by decide +kernel)

theorem renderKeyLine_isControl {key : CaBundleKey} (h : Renderable key) :
    ∀ c ∈ renderKeyLine key, isControl c = false := by
  rw [renderKeyLine_eq h]
  exact threeFields_isControl ed25519_printable h.paddedBlob.graphic h.comment

theorem parse_renderKeyLine {key : CaBundleKey} (h : Renderable key) :
    CaPublicKey.parse (renderKeyLine key) = .ok (trustedKey key) := by
  rw [renderKeyLine_eq h]
  have hne : text "mayfly:" ++ key.keyId ≠ [] :=
    List.append_ne_nil_of_left_ne_nil (by decide +kernel) _
  exact parse_threeFields ed25519_printable h.paddedBlob.graphic h.comment (by decide +kernel)
    h.paddedBlob.ne_nil hne (by decide +kernel) (isValidBase64_of_padded h.paddedBlob)

/-- A key line is neither blank nor a comment. -/
theorem renderKeyLine_trimmed {key : CaBundleKey} (h : Renderable key) :
    ¬ (trimText (renderKeyLine key) = [] ∨ (trimText (renderKeyLine key)).head? = some '#') := by
  rw [renderKeyLine_eq h]
  have htail : text "ssh-ed25519" = 's' :: text "sh-ed25519" := by decide +kernel
  have hhead : (trimText (threeFields (text "ssh-ed25519") (trustedKey key).keyData
      (text "mayfly:" ++ key.keyId))).head? = some 's' := by
    rw [threeFields, htail]
    exact trim_cons_head (by decide) _
  rintro (hnil | hsign)
  · rw [hnil] at hhead
    cases hhead
  · rw [hsign] at hhead
    exact absurd hhead (by decide)

theorem parseLines_keys {keys : List CaBundleKey} (h : ∀ key ∈ keys, Renderable key) :
    parseLines (keys.map renderKeyLine) = .ok (keys.map trustedKey) := by
  induction keys with
  | nil => rfl
  | cons key keys ih =>
    have hkey := h key (List.mem_cons_self ..)
    have hrest := ih fun k hk => h k (List.mem_cons_of_mem _ hk)
    rw [List.map_cons, parseLines]
    simp only [renderKeyLine_trimmed hkey, if_false, bind_eq_ok, mapError_eq_ok, pure_eq_ok,
      parse_renderKeyLine hkey, hrest]
    exact ⟨_, rfl, _, rfl, rfl⟩

private theorem decimal_printable (n : Nat) : Printable (decimal n) :=
  fun _ hc => isAsciiGraphic_digit (isDigit_decimal hc)

theorem headerLines_comments {bundle : CaBundle} :
    ∀ line ∈ headerLines bundle, line.head? = some '#' := by
  have happend : ∀ a b : Text, a.head? = some '#' → (a ++ b).head? = some '#' := by
    intro a b ha
    obtain ⟨rest, rfl⟩ := List.head?_eq_some_iff.mp ha
    rfl
  simp only [headerLines, List.forall_mem_cons, List.not_mem_nil, false_implies,
    implies_true, and_true]
  exact ⟨by decide +kernel, happend _ _ (by decide +kernel), happend _ _ (by decide +kernel),
    happend _ _ (by decide +kernel)⟩

theorem headerLines_isControl {bundle : CaBundle} (hfingerprint : Printable bundle.fingerprint) :
    ∀ line ∈ headerLines bundle, ∀ c ∈ line, isControl c = false := by
  have happend : ∀ a b : Text, a.any isControl = false → Printable b →
      ∀ c ∈ a ++ b, isControl c = false := by
    intro a b ha hb c hc
    rcases List.mem_append.mp hc with hc | hc
    · simpa using List.any_eq_false.mp ha c hc
    · exact hb.no_control c hc
  simp only [headerLines, List.forall_mem_cons, List.not_mem_nil, false_implies,
    implies_true, and_true]
  have hmanaged : (text "# Managed by mayfly-agent. DO NOT EDIT.").any isControl = false := by
    decide +kernel
  exact ⟨fun c hc => by simpa using List.any_eq_false.mp hmanaged c hc,
    happend _ _ (by decide +kernel) (decimal_printable _),
    happend _ _ (by decide +kernel) (decimal_printable _),
    happend _ _ (by decide +kernel) hfingerprint⟩

theorem parse_render {bundle : CaBundle} (hkeys : ∀ key ∈ bundle.keys, Renderable key)
    (hfingerprint : Printable bundle.fingerprint) :
    TrustedCaKeys.parse (renderTrustedUserCaKeys bundle) =
      .ok { keys := bundle.keys.map trustedKey } := by
  have hlines : lines (renderTrustedUserCaKeys bundle) =
      headerLines bundle ++ bundle.keys.map renderKeyLine := by
    rw [render_eq_lines, lines_flatMap]
    intro line hline
    rcases List.mem_append.mp hline with hline | hline
    · exact headerLines_isControl hfingerprint line hline
    · obtain ⟨key, hkey, rfl⟩ := List.mem_map.mp hline
      exact renderKeyLine_isControl (hkeys key hkey)
  rw [TrustedCaKeys.parse, hlines, parseLines_comments _ _ headerLines_comments,
    parseLines_keys hkeys]
  rfl

theorem computeFingerprint_printable (ext : Crypto) (generation : UInt64)
    (keys : List CaBundleKey) : Printable (computeFingerprint ext generation keys) := by
  have hprefix : Printable fingerprintPrefix := List.all_eq_true.mp (by decide +kernel)
  exact hprefix.append fun _ hc => isAsciiGraphic_hexEncode hc

section Accepted

variable {ext : Crypto}
  (hline : ∀ line, validateEd25519PublicKey ext line = .ok () →
    ∃ blob rest, splitWhitespace line = text "ssh-ed25519" :: blob :: rest ∧ PaddedBase64 blob)
  {raw : CaBundleResponse} {now : Time} {pin : Option Text} {bundle : CaBundle}

include hline in
theorem validated_nonblank : ∀ line, validateEd25519PublicKey ext line = .ok () →
    trimText line ≠ [] := by
  intro line h htrim
  obtain ⟨blob, rest, hfields, _⟩ := hline line h
  rw [← splitWhitespace_trimText, htrim, splitWhitespace, Words.fields_nil] at hfields
  cases hfields

include hline in
theorem accepted_renderable (h : fromResponse ext raw now pin = .ok bundle) :
    ∀ key ∈ bundle.keys, Renderable key := by
  obtain ⟨hvalid, hcarries⟩ := fromResponse_sound h
  intro key hkey
  have hmem : key ∈ raw.keys := hcarries.members.mem_iff.mp hkey
  exact ⟨(hvalid.keyIds key hmem).printable, hline _ (hvalid.publicKeys key hmem)⟩

include hline in
theorem accepted_parses (h : fromResponse ext raw now pin = .ok bundle) :
    TrustedCaKeys.parse (renderTrustedUserCaKeys bundle) =
      .ok { keys := bundle.keys.map trustedKey } := by
  refine parse_render (accepted_renderable hline h) ?_
  rw [(fromResponse_sound h).2.computed]
  exact computeFingerprint_printable ext _ _

end Accepted

/-- The rendering of an accepted bundle parses, and holds exactly the keys of the
bundle in the order of their ids. -/
theorem accepted_bundle_reparses (ext : Crypto)
    (hline : ∀ line, validateEd25519PublicKey ext line = .ok () →
      ∃ blob rest, splitWhitespace line = text "ssh-ed25519" :: blob :: rest ∧ PaddedBase64 blob)
    (raw : CaBundleResponse) (now : Time) (pin : Option Text) (bundle : CaBundle)
    (h : fromResponse ext raw now pin = .ok bundle) :
    ∃ parsed, TrustedCaKeys.parse (renderTrustedUserCaKeys bundle) = .ok parsed ∧
      bundle.keys.Pairwise (fun a b => a.keyId < b.keyId) ∧
      List.Forall₂ (fun key entry => entry.algorithm = text "ssh-ed25519" ∧
        (∃ rest, splitWhitespace key.publicKey = text "ssh-ed25519" :: entry.keyData :: rest) ∧
        entry.comment = some (text "mayfly:" ++ key.keyId)) bundle.keys parsed.keys := by
  refine ⟨_, accepted_parses hline h, (fromResponse_sound h).2.increasing, ?_⟩
  rw [List.forall₂_map_right_iff, List.forall₂_same]
  intro key hkey
  obtain ⟨blob, rest, hfields, _⟩ := (accepted_renderable hline h key hkey).publicKey
  exact ⟨rfl, ⟨rest, by simp [trustedKey, hfields]⟩, rfl⟩

theorem sampleCrypto_validated {line : Text}
    (h : validateEd25519PublicKey sampleCrypto line = .ok ()) :
    ∃ known comment, line = opensshLine known comment := by
  unfold validateEd25519PublicKey at h
  split at h
  · cases h
  · cases hparse : sampleCrypto.fromOpenssh line with
    | none => rw [hparse] at h; cases h
    | some key => exact sampleCrypto_line hparse

theorem sampleCrypto_lines (line : Text)
    (h : validateEd25519PublicKey sampleCrypto line = .ok ()) :
    ∃ blob rest, splitWhitespace line = text "ssh-ed25519" :: blob :: rest ∧ PaddedBase64 blob := by
  obtain ⟨known, comment, rfl⟩ := sampleCrypto_validated h
  refine ⟨_, _, opensshLine_fields known comment, _, 0, (List.append_nil _).symm, ?_, ?_, by decide,
    by simp [sextets]⟩
  · exact List.ne_nil_of_length_pos (by simp [sextets])
  · intro c hc
    obtain ⟨i, hi, rfl⟩ := mem_sextets hc
    have hletter : ∀ i < 64, isBase64Letter (base64Digit i) = true := by decide
    exact hletter i hi

theorem accepted_bundle_reparses_golden :
    ∃ parsed, TrustedCaKeys.parse (renderTrustedUserCaKeys golden.bundle) = .ok parsed ∧
      parsed.keys.length = 2 := by
  obtain ⟨parsed, hparse, _, hkeys⟩ := accepted_bundle_reparses sampleCrypto sampleCrypto_lines
    golden.response sampleNow (some golden.signingKey) golden.bundle golden_accepted
  exact ⟨parsed, hparse, hkeys.length_eq.symm⟩

end MayflyAgent.BundleRendering
