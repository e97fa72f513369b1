import Mathlib.Logic.Function.Basic
import Mathlib.Data.List.Basic
import Mathlib.Algebra.GroupWithZero.Nat

/-!
Self-delimiting codes. A code is delimited when the end of an encoded value can
be found without looking at what follows it, so that whatever is appended, equal
texts were built from equal values. Sequences of delimited pieces, with fixed
text between them, are delimited again, and so are lists of delimited items with
a separator between the items and a stop symbol behind the last.
-/
namespace MayflyAgent.Codes

variable {α β γ : Type}

def Delimited (code : α → List β) : Prop :=
  ∀ a b r s, code a ++ r = code b ++ s → a = b ∧ r = s

/-- A code that can be read back in front of any rest is delimited. -/
theorem delimited_of_read {code : α → List β} (read : List β → Option (α × List β))
    (h : ∀ a r, read (code a ++ r) = some (a, r)) : Delimited code := by
  intro a b r s heq
  have hread : some (a, r) = some (b, s) := by rw [← h a r, heq, h b s]
  simpa using hread

theorem Delimited.before {code : α → List β} (h : Delimited code) (text : List β) :
    Delimited fun a => text ++ code a := by
  intro a b r s heq
  simp only [List.append_assoc] at heq
  exact h a b r s (List.append_cancel_left heq)

theorem Delimited.after {code : α → List β} (h : Delimited code) (text : List β) :
    Delimited fun a => code a ++ text := by
  intro a b r s heq
  simp only [List.append_assoc] at heq
  obtain ⟨hab, hrest⟩ := h a b (text ++ r) (text ++ s) heq
  exact ⟨hab, List.append_cancel_left hrest⟩

/-- An injective code becomes delimited with a stop symbol that it never uses. -/
theorem delimited_stop {code : α → List β} (hinj : Function.Injective code) {stop : β}
    (hstop : ∀ a, stop ∉ code a) : Delimited fun a => code a ++ [stop] := by
  intro a b r s heq
  simp only [List.append_assoc, List.singleton_append] at heq
  have hsplit : ∀ (l m r s : List β), stop ∉ l → stop ∉ m →
      l ++ stop :: r = m ++ stop :: s → l = m ∧ r = s := by
    intro l
    induction l with
    | nil =>
      intro m r s _ hm h
      cases m with
      | nil => exact ⟨rfl, by simpa using h⟩
      | cons x m => simp_all
    | cons y l ih =>
      intro m r s hl hm h
      cases m with
      | nil => simp_all
      | cons x m =>
        simp only [List.cons_append, List.cons.injEq] at h
        simp only [List.mem_cons, not_or] at hl hm
        obtain ⟨rfl, hrest⟩ := ih m r s hl.2 hm.2 h.2
        exact ⟨by rw [h.1], hrest⟩
  obtain ⟨hcode, hrest⟩ := hsplit _ _ _ _ (hstop a) (hstop b) heq
  exact ⟨hinj hcode, hrest⟩

/-- Delimited items one after another, up to a stop symbol that starts none of them. -/
theorem Delimited.list {code : α → List β} (h : Delimited code) {stop : β}
    (hhead : ∀ a, ∃ x rest, code a = x :: rest ∧ x ≠ stop) :
    Delimited fun l : List α => l.flatMap code ++ [stop] := by
  intro l
  induction l with
  | nil =>
    intro m r s heq
    cases m with
    | nil => exact ⟨rfl, by simpa using heq⟩
    | cons b m =>
      obtain ⟨x, rest, hx, hne⟩ := hhead b
      simp only [List.flatMap_nil, List.nil_append, List.flatMap_cons, hx, List.cons_append,
        List.cons.injEq] at heq
      exact absurd heq.1.symm hne
  | cons a l ih =>
    intro m r s heq
    cases m with
    | nil =>
      obtain ⟨x, rest, hx, hne⟩ := hhead a
      simp only [List.flatMap_nil, List.nil_append, List.flatMap_cons, hx, List.cons_append,
        List.cons.injEq] at heq
      exact absurd heq.1 hne
    | cons b m =>
      simp only [List.flatMap_cons, List.append_assoc] at heq
      obtain ⟨rfl, htail⟩ := h a b _ _ heq
      obtain ⟨rfl, hrest⟩ := ih m r s (by simpa [List.append_assoc] using htail)
      exact ⟨rfl, hrest⟩

/-- The items of a list with a separator between neighbours. -/
def separated (sep : β) (code : α → List β) : List α → List β
  | [] => []
  | a :: l => code a ++ l.flatMap fun b => sep :: code b

theorem Delimited.separated {code : α → List β} (h : Delimited code) (sep : β) {stop : β}
    (hhead : ∀ a, ∃ x rest, code a = x :: rest ∧ x ≠ stop) (hsep : sep ≠ stop) :
    Delimited fun l : List α => Codes.separated sep code l ++ [stop] := by
  have hitems : Delimited fun l : List α => (l.flatMap fun b => sep :: code b) ++ [stop] := by
    apply Delimited.list
    · exact h.before [sep]
    · exact fun a => ⟨sep, code a, rfl, hsep⟩
  intro l m r s heq
  cases l with
  | nil =>
    cases m with
    | nil => exact ⟨rfl, by simpa [Codes.separated] using heq⟩
    | cons b m =>
      obtain ⟨x, rest, hx, hne⟩ := hhead b
      simp only [Codes.separated, hx, List.nil_append, List.cons_append, List.cons.injEq] at heq
      exact absurd heq.1.symm hne
  | cons a l =>
    cases m with
    | nil =>
      obtain ⟨x, rest, hx, hne⟩ := hhead a
      simp only [Codes.separated, hx, List.nil_append, List.cons_append, List.cons.injEq] at heq
      exact absurd heq.1 hne
    | cons b m =>
      simp only [Codes.separated, List.append_assoc] at heq
      obtain ⟨rfl, htail⟩ := h a b _ _ heq
      obtain ⟨rfl, hrest⟩ := hitems l m r s (by simpa [List.append_assoc] using htail)
      exact ⟨rfl, hrest⟩

section Separators

variable {α : Type} [DecidableEq α] (sep : α)

theorem count_intercalate (pieces : List (List α)) :
    ([sep].intercalate pieces).count sep =
      (pieces.map (List.count sep)).sum + (pieces.length - 1) := by
  induction pieces with
  | nil => rfl
  | cons piece rest ih =>
    cases rest with
    | nil => simp
    | cons next rest =>
      rw [List.intercalate_cons_cons, List.count_append, List.count_append, ih]
      simp only [List.map_cons, List.sum_cons, List.length_cons, List.count_singleton_self]
      omega

/-- Pieces without the separator are told apart from any other pieces of their number. -/
theorem intercalate_unambiguous {pieces pieces' : List (List α)} (hne : pieces ≠ [])
    (hlength : pieces.length = pieces'.length) (hfree : ∀ piece ∈ pieces, sep ∉ piece)
    (h : [sep].intercalate pieces = [sep].intercalate pieces') : pieces = pieces' := by
  have hcount := congrArg (List.count sep) h
  have hzero : (pieces.map (List.count sep)).sum = 0 := by
    rw [List.sum_eq_zero_iff_forall_eq_nat]
    simpa using fun piece hpiece => List.count_eq_zero.mpr (hfree piece hpiece)
  rw [count_intercalate, count_intercalate, hlength, hzero, Nat.add_left_inj, eq_comm,
    List.sum_eq_zero_iff_forall_eq_nat] at hcount
  have hfree' : ∀ piece ∈ pieces', sep ∉ piece := fun piece hpiece =>
    List.count_eq_zero.mp (hcount _ (List.mem_map_of_mem hpiece))
  have hne' : pieces' ≠ [] := List.length_pos_iff.mp (hlength ▸ List.length_pos_iff.mpr hne)
  rw [← List.splitOn_intercalate sep hfree hne, h, List.splitOn_intercalate sep hfree' hne']

end Separators

end MayflyAgent.Codes
