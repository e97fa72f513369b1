import Mathlib.Data.List.DropRight
import Mathlib.Tactic.Common

/-!
Splitting a list into fields at separators, and trimming separators off its ends.
The separators are given by a predicate. A field is a maximal nonempty stretch
without separators, so trimming never changes the fields, and a list has no
fields exactly when trimming leaves nothing of it.
-/
namespace MayflyAgent.Words

variable {α : Type} (sep : α → Bool)

def fields (l : List α) : List (List α) :=
  (l.splitOnP sep).filter fun word => !word.isEmpty

def trimStart (l : List α) : List α := l.dropWhile sep

def trimEnd (l : List α) : List α := l.rdropWhile sep

def trim (l : List α) : List α := trimEnd sep (trimStart sep l)

variable {sep}

theorem fields_nil : fields sep [] = [] := by simp [fields]

theorem fields_append_sep (l r : List α) {s : α} (hs : sep s = true) :
    fields sep (l ++ s :: r) = fields sep l ++ fields sep r := by
  simp only [fields, List.splitOnP_append_cons l r hs, List.filter_append]

theorem fields_cons_sep (l : List α) {s : α} (hs : sep s = true) :
    fields sep (s :: l) = fields sep l := by
  have h := fields_append_sep [] l hs
  rwa [fields_nil, List.nil_append, List.nil_append] at h

theorem fields_concat_sep (l : List α) {s : α} (hs : sep s = true) :
    fields sep (l ++ [s]) = fields sep l := by
  rw [fields_append_sep l [] hs, fields_nil, List.append_nil]

theorem fields_word {word : List α} (hne : word ≠ []) (hword : ∀ c ∈ word, sep c = false) :
    fields sep word = [word] := by
  simp [fields, List.splitOnP_eq_singleton hword, hne]

theorem fields_word_append {word : List α} (hne : word ≠ [])
    (hword : ∀ c ∈ word, sep c = false) {s : α} (hs : sep s = true) (rest : List α) :
    fields sep (word ++ s :: rest) = word :: fields sep rest := by
  rw [fields_append_sep word rest hs, fields_word hne hword, List.singleton_append]

/-- Every list starts with separators, then a word, then either ends or goes on
with a separator. Inductions over the fields follow this decomposition. -/
theorem exists_leading_word (sep : α → Bool) (l : List α) :
    (∀ c ∈ l, sep c = true) ∨
      ∃ gap word rest, l = gap ++ word ++ rest ∧ (∀ c ∈ gap, sep c = true) ∧
        word ≠ [] ∧ (∀ c ∈ word, sep c = false) ∧
        (rest = [] ∨ ∃ s tail, rest = s :: tail ∧ sep s = true) := by
  induction l with
  | nil => exact Or.inl (by simp)
  | cons c l ih =>
    by_cases hc : sep c = true
    · rcases ih with hall | ⟨gap, word, rest, rfl, hgap, hne, hword, hrest⟩
      · exact Or.inl (by simpa [hc] using hall)
      · refine Or.inr ⟨c :: gap, word, rest, rfl, ?_, hne, hword, hrest⟩
        simpa [hc] using hgap
    · have hcf : sep c = false := by simpa using hc
      refine Or.inr ?_
      rcases ih with hall | ⟨gap, word, rest, rfl, hgap, hne, hword, hrest⟩
      · refine ⟨[], [c], l, rfl, by simp, by simp, by simpa using hcf, ?_⟩
        cases l with
        | nil => exact Or.inl rfl
        | cons s tail => exact Or.inr ⟨s, tail, rfl, hall s (List.mem_cons_self ..)⟩
      · cases gap with
        | nil =>
          exact ⟨[], c :: word, rest, rfl, by simp, by simp, by simpa [hcf] using hword, hrest⟩
        | cons s gap =>
          exact ⟨[], [c], s :: gap ++ word ++ rest, rfl, by simp, by simp, by simpa using hcf,
            Or.inr ⟨s, gap ++ word ++ rest, rfl, hgap s (List.mem_cons_self ..)⟩⟩

theorem fields_gap_append {gap : List α} (hgap : ∀ c ∈ gap, sep c = true) (l : List α) :
    fields sep (gap ++ l) = fields sep l := by
  induction gap with
  | nil => rfl
  | cons c gap ih =>
    rw [List.cons_append, fields_cons_sep _ (hgap c (List.mem_cons_self ..))]
    exact ih fun d hd => hgap d (List.mem_cons_of_mem _ hd)

theorem fields_append_gap (l : List α) {gap : List α} (hgap : ∀ c ∈ gap, sep c = true) :
    fields sep (l ++ gap) = fields sep l := by
  induction gap using List.reverseRecOn with
  | nil => rw [List.append_nil]
  | append_singleton gap c ih =>
    rw [← List.append_assoc, fields_concat_sep _ (hgap c (by simp))]
    exact ih fun d hd => hgap d (by simp [hd])

/-- Reading off the first field of a decomposed list. -/
theorem fields_leading {gap word rest : List α} (hgap : ∀ c ∈ gap, sep c = true)
    (hne : word ≠ []) (hword : ∀ c ∈ word, sep c = false)
    (hrest : rest = [] ∨ ∃ s tail, rest = s :: tail ∧ sep s = true) :
    fields sep (gap ++ word ++ rest) = word :: fields sep rest := by
  rw [List.append_assoc, fields_gap_append hgap]
  rcases hrest with rfl | ⟨s, tail, rfl, hs⟩
  · rw [List.append_nil, fields_word hne hword, fields_nil]
  · rw [fields_word_append hne hword hs, fields_cons_sep _ hs]

theorem fields_eq_nil_iff (l : List α) : fields sep l = [] ↔ ∀ c ∈ l, sep c = true := by
  constructor
  · intro h
    rcases exists_leading_word sep l with
      hall | ⟨gap, word, rest, rfl, hgap, hne, hword, hrest⟩
    · exact hall
    · rw [fields_leading hgap hne hword hrest] at h
      exact absurd h (List.cons_ne_nil _ _)
  · intro hall
    have h := fields_gap_append hall []
    rwa [List.append_nil, fields_nil] at h

theorem trimStart_append (sep : α → Bool) (l : List α) :
    ∃ gap, l = gap ++ trimStart sep l ∧ ∀ c ∈ gap, sep c = true := by
  refine ⟨l.takeWhile sep, (List.takeWhile_append_dropWhile ..).symm, ?_⟩
  intro c hc
  exact List.mem_takeWhile_imp hc

theorem trimEnd_append (sep : α → Bool) (l : List α) :
    ∃ gap, l = trimEnd sep l ++ gap ∧ ∀ c ∈ gap, sep c = true := by
  refine ⟨l.rtakeWhile sep, (List.rdropWhile_append_rtakeWhile ..).symm, ?_⟩
  intro c hc
  exact List.mem_rtakeWhile_imp hc

theorem fields_trimStart (l : List α) : fields sep (trimStart sep l) = fields sep l := by
  obtain ⟨gap, heq, hgap⟩ := trimStart_append sep l
  conv_rhs => rw [heq]
  exact (fields_gap_append hgap _).symm

theorem fields_trimEnd (l : List α) : fields sep (trimEnd sep l) = fields sep l := by
  obtain ⟨gap, heq, hgap⟩ := trimEnd_append sep l
  conv_rhs => rw [heq]
  exact (fields_append_gap _ hgap).symm

theorem fields_trim (l : List α) : fields sep (trim sep l) = fields sep l := by
  rw [trim, fields_trimEnd, fields_trimStart]

theorem trim_eq_nil_iff (l : List α) : trim sep l = [] ↔ ∀ c ∈ l, sep c = true := by
  constructor
  · intro h
    rw [← fields_eq_nil_iff, ← fields_trim, h, fields_nil]
  · intro hall
    have hstart : trimStart sep l = [] := List.dropWhile_eq_nil_iff.mpr hall
    rw [trim, hstart, trimEnd, List.rdropWhile_nil]

theorem trimStart_eq_self {l : List α} (h : ∀ c ∈ l.head?, sep c = false) :
    trimStart sep l = l := by
  cases l with
  | nil => rfl
  | cons c l => simp [trimStart, h c rfl]

theorem trim_eq_self {l : List α} (hhead : ∀ c ∈ l.head?, sep c = false)
    (hlast : ∀ c ∈ l.getLast?, sep c = false) : trim sep l = l := by
  rw [trim, trimStart_eq_self hhead, trimEnd, List.rdropWhile_eq_self_iff]
  intro hne
  have h := hlast (l.getLast hne) (List.getLast?_eq_some_getLast hne)
  simp [h]

theorem trim_concat_sep (l : List α) {s : α} (hs : sep s = true) :
    trim sep (l ++ [s]) = trim sep l := by
  by_cases hall : ∀ c ∈ l, sep c = true
  · rw [(trim_eq_nil_iff l).mpr hall, trim_eq_nil_iff]
    intro c hc
    rcases List.mem_append.mp hc with hc | hc
    · exact hall c hc
    · obtain rfl : c = s := by simpa using hc
      exact hs
  · have hstart : trimStart sep (l ++ [s]) = trimStart sep l ++ [s] := by
      rw [trimStart, List.dropWhile_append, if_neg]
      · rfl
      · simpa [List.dropWhile_eq_nil_iff] using hall
    rw [trim, hstart, trimEnd, List.rdropWhile_concat_pos _ _ _ hs]
    rfl

theorem trimStart_cons {s : α} (hs : sep s = true) (l : List α) :
    trimStart sep (s :: l) = trimStart sep l := List.dropWhile_cons_of_pos hs

/-- A list keeps its first member when that is no separator. -/
theorem trim_cons_head {c : α} (hc : sep c = false) (l : List α) :
    (trim sep (c :: l)).head? = some c := by
  have hstart : trimStart sep (c :: l) = c :: l :=
    trimStart_eq_self fun d hd => by
      obtain rfl : c = d := by simpa using hd
      exact hc
  rw [trim, hstart]
  have hprefix : trimEnd sep (c :: l) <+: c :: l := List.rdropWhile_prefix _ _
  obtain ⟨rest, hrest⟩ := hprefix
  cases hend : trimEnd sep (c :: l) with
  | nil =>
    have hall := List.rdropWhile_eq_nil_iff.mp hend
    exact absurd (hall c (List.mem_cons_self ..)) (by simp [hc])
  | cons d tail =>
    rw [hend, List.cons_append] at hrest
    rw [List.head?_cons, (List.cons.inj hrest).1]

theorem forall_mem_of_any {p : α → Bool} {l : List α} (h : l.any p = false) :
    ∀ a ∈ l, p a = false :=
  fun a ha => eq_false_of_ne_true (List.any_eq_false.mp h a ha)

end MayflyAgent.Words
