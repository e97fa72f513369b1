import MayflyAgent.ConfigSources
import MayflyAgent.SignedUrls
import MayflyAgent.TrustedCaForms

/-!
The look into the main configuration of sshd, after `ssh/sshd_config.rs`. It finds an inclusion of
the drop-in directory exactly where a line has the keyword as its first word, in any case, and a
pattern in that directory among its other words. So comments, indentation, line ends and slashes
behind a directory make no difference, and neither does where a line stands.
-/
namespace MayflyAgent.SshdConfigs

open RustText Words ConfigSources

/-- `str::split_once` at the first character of a kind. -/
def splitOnce (sep : Char → Bool) (s : Text) : Option (Text × Text) :=
  match s.dropWhile fun c => !sep c with
  | [] => none
  | _ :: rest => some (s.takeWhile fun c => !sep c, rest)

/-- `str::rsplit_once` at the last slash, with the part before it, or else the whole. -/
def directory (pattern : Text) : Text :=
  match pattern.rdropWhile fun c => c != '/' with
  | [] => pattern
  | c :: front => (c :: front).dropLast

def eqIgnoreAsciiCase (s t : Text) : Bool := toAsciiLowercase s == toAsciiLowercase t

def trimSlashes (s : Text) : Text := trimEnd (fun c => c == '/') s

def dropinDir : Text := text "/etc/ssh/sshd_config.d"

/-- The body of the loop over the lines. -/
def lineIncludes (needle line : Text) : Bool :=
  let trimmed := trimText line
  if trimmed.isEmpty || trimmed.head? == some '#' then false
  else
    match splitOnce isWhitespace trimmed with
    | none => false
    | some (keyword, rest) =>
      if eqIgnoreAsciiCase keyword (text "Include") then
        (splitWhitespace rest).any fun pattern => trimSlashes (directory pattern) == needle
      else false

def includesDropinDir (configText dropinDir : Text) : Bool :=
  (lines configText).any (lineIncludes (trimSlashes dropinDir))

/-- Two paths are the same up to the slashes at their ends. -/
def SameDir (d d' : Text) : Prop :=
  ∃ stem m n, d = stem ++ List.replicate m '/' ∧ d' = stem ++ List.replicate n '/'

/-- The pattern is for files of the directory, or is its name where that has no slash. -/
def RefersTo (dropinDir pattern : Text) : Prop :=
  (∃ dir file, pattern = dir ++ '/' :: file ∧ '/' ∉ file ∧ SameDir dir dropinDir) ∨
    '/' ∉ pattern ∧ SameDir pattern dropinDir

def IncludeLine (dropinDir line : Text) : Prop :=
  ∃ keyword patterns, splitWhitespace line = keyword :: patterns ∧
    toAsciiLowercase keyword = text "include" ∧ ∃ pattern ∈ patterns, RefersTo dropinDir pattern

theorem trimSlashes_eq_iff {d d' : Text} : trimSlashes d = trimSlashes d' ↔ SameDir d d' := by
  have hends : ∀ d : Text, ∃ n, d = trimSlashes d ++ List.replicate n '/' := by
    intro d
    obtain ⟨gap, hgap, hslashes⟩ := trimEnd_append (fun c => c == '/') d
    refine ⟨gap.length, ?_⟩
    rw [← List.eq_replicate_of_mem fun c hc => eq_of_beq (hslashes c hc)]
    exact hgap
  have htrim : ∀ (stem : Text) n,
      trimSlashes (stem ++ List.replicate n '/') = trimSlashes stem := by
    intro stem n
    have hnone : trimEnd (fun c => c == '/') (List.replicate n '/') = [] := by
      refine List.rdropWhile_eq_nil_iff.mpr fun c hc => ?_
      rw [List.eq_of_mem_replicate hc]
      rfl
    unfold trimSlashes
    rw [SignedUrls.trimEnd_append_list, if_pos hnone]
  constructor
  · intro h
    obtain ⟨m, hm⟩ := hends d
    obtain ⟨n, hn⟩ := hends d'
    exact ⟨trimSlashes d, m, n, hm, h ▸ hn⟩
  · intro ⟨stem, m, n, hd, hd'⟩
    rw [hd, hd', htrim, htrim]

theorem directory_of_slash {dir file : Text} (h : '/' ∉ file) :
    directory (dir ++ '/' :: file) = dir := by
  have hfile : file.rdropWhile (fun c => c != '/') = [] := by
    refine List.rdropWhile_eq_nil_iff.mpr fun c hc => ?_
    exact bne_iff_ne.mpr fun hslash => h (hslash ▸ hc)
  have hfront : (dir ++ '/' :: file).rdropWhile (fun c => c != '/') = dir ++ ['/'] := by
    have hsplit : dir ++ '/' :: file = (dir ++ ['/']) ++ file := by
      rw [List.append_assoc]
      rfl
    rw [hsplit]
    show trimEnd (fun c => c != '/') _ = _
    rw [SignedUrls.trimEnd_append_list]
    unfold trimEnd
    rw [if_pos hfile]
    exact List.rdropWhile_concat_neg _ _ _ (by decide)
  unfold directory
  rw [hfront]
  cases dir with
  | nil => rfl
  | cons c front =>
    show (c :: (front ++ ['/'])).dropLast = c :: front
    rw [← List.cons_append, List.dropLast_concat]

theorem directory_of_plain {pattern : Text} (h : '/' ∉ pattern) : directory pattern = pattern := by
  have hnone : pattern.rdropWhile (fun c => c != '/') = [] := by
    refine List.rdropWhile_eq_nil_iff.mpr fun c hc => ?_
    exact bne_iff_ne.mpr fun hslash => h (hslash ▸ hc)
  unfold directory
  rw [hnone]

theorem refersTo_iff {dropinDir pattern : Text} :
    trimSlashes (directory pattern) = trimSlashes dropinDir ↔ RefersTo dropinDir pattern := by
  rw [trimSlashes_eq_iff]
  by_cases hslash : '/' ∈ pattern
  · obtain ⟨file, dir, hfile, hpattern⟩ : ∃ file dir : Text, '/' ∉ file ∧
        pattern = dir ++ '/' :: file := by
      obtain ⟨front, rest, hrev, hfront⟩ := List.eq_append_cons_of_mem
        (List.mem_reverse.mpr hslash)
      refine ⟨front.reverse, rest.reverse, fun h => hfront (List.mem_reverse.mp h), ?_⟩
      have hback := congrArg List.reverse hrev
      rw [List.reverse_reverse, List.reverse_append, List.reverse_cons, List.append_assoc] at hback
      exact hback
    rw [hpattern, directory_of_slash hfile]
    constructor
    · exact fun h => Or.inl ⟨dir, file, rfl, hfile, h⟩
    · intro h
      rcases h with ⟨dir', file', hsame, hfile', h⟩ | ⟨hnone, _⟩
      · have hdir := congrArg directory hsame
        rw [directory_of_slash hfile, directory_of_slash hfile'] at hdir
        rw [hdir]
        exact h
      · exact absurd (List.mem_append_right dir (List.mem_cons_self ..)) hnone
  · rw [directory_of_plain hslash]
    constructor
    · exact fun h => Or.inr ⟨hslash, h⟩
    · intro h
      rcases h with ⟨dir, file, hpattern, _, _⟩ | ⟨_, h⟩
      · rw [hpattern] at hslash
        exact absurd (List.mem_append_right dir (List.mem_cons_self ..)) hslash
      · exact h

/-- A trimmed line falls into its first word and what comes behind the next space. -/
theorem splitOnce_words {s : Text} (hne : s ≠ []) (hhead : ∀ c ∈ s.head?, isWhitespace c = false) :
    (splitOnce isWhitespace s = none ∧ splitWhitespace s = [s]) ∨
      ∃ keyword rest, splitOnce isWhitespace s = some (keyword, rest) ∧
        splitWhitespace s = keyword :: splitWhitespace rest := by
  have hwhole := List.takeWhile_append_dropWhile (p := fun c => !isWhitespace c) (l := s)
  have hword : ∀ c ∈ s.takeWhile (fun c => !isWhitespace c), isWhitespace c = false := by
    intro c hc
    simpa using List.mem_takeWhile_imp hc
  have hfirst : s.takeWhile (fun c => !isWhitespace c) ≠ [] := by
    cases s with
    | nil => exact absurd rfl hne
    | cons c rest =>
      rw [List.takeWhile_cons_of_pos (by rw [hhead c rfl]; rfl)]
      exact List.cons_ne_nil _ _
  unfold splitOnce
  cases hdrop : s.dropWhile (fun c => !isWhitespace c) with
  | nil =>
    rw [hdrop, List.append_nil] at hwhole
    rw [hwhole] at hword
    exact Or.inl ⟨rfl, fields_word hne hword⟩
  | cons c rest =>
    refine Or.inr ⟨_, rest, rfl, ?_⟩
    have hspace : isWhitespace c = true := by
      have hfails := List.head?_dropWhile_not (fun c => !isWhitespace c) s
      rw [hdrop] at hfails
      simpa using hfails
    rw [hdrop] at hwhole
    have hsplit := fields_word_append hfirst hword hspace rest
    rw [hwhole] at hsplit
    exact hsplit

/-- A comment has no first word that is the keyword. -/
theorem keyword_of_comment {s keyword rest : Text} (hhead : ∀ c ∈ s.head?, isWhitespace c = false)
    (hsplit : splitOnce isWhitespace s = some (keyword, rest)) (hcomment : s.head? = some '#') :
    toAsciiLowercase keyword ≠ text "include" := by
  have hfirst : keyword.head? = some '#' := by
    unfold splitOnce at hsplit
    split at hsplit
    · cases hsplit
    · obtain ⟨hkeyword, _⟩ := Prod.mk.inj (Option.some.inj hsplit)
      cases s with
      | nil => cases hcomment
      | cons c tail =>
        rw [← hkeyword, List.takeWhile_cons_of_pos (by rw [hhead c rfl]; rfl)]
        exact hcomment
  intro hinclude
  have hhash : (text "include").head? = some '#' := by
    rw [← hinclude]
    unfold toAsciiLowercase
    rw [List.head?_map, hfirst]
    rfl
  exact absurd hhash (by simp [text])

theorem lineIncludes_iff {dropinDir line : Text} :
    lineIncludes (trimSlashes dropinDir) line = true ↔ IncludeLine dropinDir line := by
  have hkeyword : toAsciiLowercase (text "Include") = text "include" := by
    with_unfolding_all decide
  have hhead : ∀ c ∈ (trimText line).head?, isWhitespace c = false :=
    (TrustedCaForms.trim_ends line).1
  unfold lineIncludes IncludeLine
  rw [← splitWhitespace_trimText line]
  generalize trimText line = trimmed at hhead ⊢
  simp only
  by_cases hempty : trimmed = []
  · rw [hempty]
    refine iff_of_false Bool.false_ne_true ?_
    intro ⟨_, _, hwords, _⟩
    have hnone : splitWhitespace [] = [] := fields_nil
    rw [hnone] at hwords
    cases hwords
  have hblank : trimmed.isEmpty = false := List.isEmpty_eq_false_iff.mpr hempty
  rcases splitOnce_words hempty hhead with ⟨hsplit, hwords⟩ | ⟨keyword, rest, hsplit, hwords⟩
  · rw [hwords, hsplit, ite_self]
    refine iff_of_false Bool.false_ne_true ?_
    intro ⟨_, patterns, hsingle, _, pattern, hpattern, _⟩
    obtain ⟨-, rfl⟩ := List.cons.inj hsingle
    cases hpattern
  · have hwhole : (∃ keyword patterns, splitWhitespace trimmed = keyword :: patterns ∧
        toAsciiLowercase keyword = text "include" ∧
          ∃ pattern ∈ patterns, RefersTo dropinDir pattern) ↔
        toAsciiLowercase keyword = text "include" ∧
          ∃ pattern ∈ splitWhitespace rest, RefersTo dropinDir pattern := by
      rw [hwords]
      constructor
      · intro ⟨_, _, hcons, h⟩
        obtain ⟨rfl, rfl⟩ := List.cons.inj hcons
        exact h
      · exact fun h => ⟨_, _, rfl, h⟩
    rw [hwhole, hblank, hsplit, Bool.false_or]
    by_cases hcomment : trimmed.head? = some '#'
    · rw [if_pos (beq_iff_eq.mpr hcomment)]
      exact iff_of_false Bool.false_ne_true fun h =>
        keyword_of_comment hhead hsplit hcomment h.1
    · rw [if_neg fun h => hcomment (eq_of_beq h)]
      unfold eqIgnoreAsciiCase
      dsimp only
      rw [hkeyword]
      by_cases hinclude : toAsciiLowercase keyword = text "include"
      · rw [if_pos (beq_iff_eq.mpr hinclude), List.any_eq_true]
        refine ⟨fun ⟨pattern, hpattern, hsame⟩ => ⟨hinclude, pattern, hpattern, ?_⟩,
          fun ⟨_, pattern, hpattern, hrefers⟩ => ⟨pattern, hpattern, ?_⟩⟩
        · exact refersTo_iff.mp (eq_of_beq hsame)
        · exact beq_iff_eq.mpr (refersTo_iff.mpr hrefers)
      · rw [if_neg fun h => hinclude (eq_of_beq h)]
        exact iff_of_false Bool.false_ne_true fun h => hinclude h.1

/-- The directory is included exactly if one line says so. -/
theorem includes_iff (configText dropinDir : Text) :
    includesDropinDir configText dropinDir = true ↔
      ∃ line ∈ lines configText, IncludeLine dropinDir line := by
  unfold includesDropinDir
  simp only [List.any_eq_true, lineIncludes_iff]

theorem includeLine_congr {dropinDir line line' : Text}
    (h : splitWhitespace line = splitWhitespace line') :
    IncludeLine dropinDir line ↔ IncludeLine dropinDir line' := by
  unfold IncludeLine
  rw [h]

theorem splitWhitespace_stripCarriageReturn (line : Text) :
    splitWhitespace (stripCarriageReturn line) = splitWhitespace line := by
  unfold stripCarriageReturn
  by_cases hreturn : line.getLast? = some '\r'
  · rw [if_pos hreturn]
    have hsplit := List.dropLast_append_getLast? '\r' hreturn
    conv_rhs => rw [← hsplit]
    exact (fields_concat_sep _ (by decide)).symm
  · rw [if_neg hreturn]

theorem not_includeLine_nil (dropinDir : Text) : ¬ IncludeLine dropinDir [] := by
  intro ⟨_, _, hwords, _⟩
  have hnone : splitWhitespace [] = [] := fields_nil
  rw [hnone] at hwords
  cases hwords

/-- The lines of two texts with a line feed between them say what those of either text say. -/
theorem includes_feed (dropinDir piece configText more : Text) :
    (∃ line ∈ linesFrom piece (configText ++ '\n' :: more), IncludeLine dropinDir line) ↔
      (∃ line ∈ linesFrom piece configText, IncludeLine dropinDir line) ∨
        ∃ line ∈ lines more, IncludeLine dropinDir line := by
  have hstripped : ∀ line, IncludeLine dropinDir (stripCarriageReturn line) ↔
      IncludeLine dropinDir line :=
    fun line => includeLine_congr (splitWhitespace_stripCarriageReturn line)
  induction configText generalizing piece with
  | nil =>
    have hfirst : linesFrom piece ('\n' :: more) = stripCarriageReturn piece :: lines more :=
      if_pos rfl
    rw [List.nil_append, hfirst, List.exists_mem_cons_iff, hstripped]
    refine or_congr_left ?_
    by_cases hpiece : piece = []
    · have hnone : linesFrom piece [] = [] := by
        rw [hpiece]
        rfl
      rw [hnone, hpiece]
      refine iff_of_false (not_includeLine_nil _) ?_
      intro ⟨_, hmem, _⟩
      cases hmem
    · have hlast : linesFrom piece [] = [piece] := by
        unfold linesFrom
        rw [List.isEmpty_eq_false_iff.mpr hpiece]
        rfl
      rw [hlast]
      simp only [List.mem_singleton, exists_eq_left]
  | cons c configText ih =>
    rw [List.cons_append, linesFrom, linesFrom]
    by_cases hfeed : c = '\n'
    · rw [if_pos hfeed, if_pos hfeed, List.exists_mem_cons_iff, List.exists_mem_cons_iff]
      exact (or_congr_right (ih [])).trans or_assoc.symm
    · rw [if_neg hfeed, if_neg hfeed]
      exact ih _

/-- What follows a configuration can only add to what it includes. -/
theorem includes_append (configText more dropinDir : Text) :
    includesDropinDir (configText ++ '\n' :: more) dropinDir =
      (includesDropinDir configText dropinDir || includesDropinDir more dropinDir) := by
  rw [Bool.eq_iff_iff, Bool.or_eq_true]
  simp only [includes_iff]
  exact includes_feed dropinDir [] configText more

/-- A configuration includes the directory when one of its lines does, so what is appended to it
can only add to what it includes. -/
theorem inclusion_found (configText dropinDir : Text) :
    (includesDropinDir configText dropinDir = true ↔
      ∃ line ∈ lines configText, IncludeLine dropinDir line) ∧
    ∀ more, includesDropinDir (configText ++ '\n' :: more) dropinDir =
      (includesDropinDir configText dropinDir || includesDropinDir more dropinDir) :=
  ⟨includes_iff configText dropinDir, fun more => includes_append configText more dropinDir⟩

end MayflyAgent.SshdConfigs
