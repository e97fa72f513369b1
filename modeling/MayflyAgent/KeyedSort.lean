import Mathlib.Data.List.Sort
import Mathlib.Data.List.Chain
import Mathlib.Order.Basic

/-!
Stable sorting of a list by a key, and the detection of repeated keys by looking
at neighbours in the sorted list. Sorting keeps the members and, for each key,
their order; with distinct keys the result depends on the members alone.
-/
namespace MayflyAgent.KeyedSort

variable {α κ : Type} [LinearOrder κ] (key : α → κ)

def sortByKey (l : List α) : List α := l.insertionSort fun a b => key a ≤ key b

/-- Some two neighbours of the list have the same key. -/
def hasEqualNeighbours : List α → Bool
  | a :: b :: l => key a = key b || hasEqualNeighbours (b :: l)
  | _ => false

instance keyTotal : Std.Total fun a b : α => key a ≤ key b := ⟨fun a b => le_total (key a) (key b)⟩

instance keyTrans : IsTrans α fun a b => key a ≤ key b := ⟨fun _ _ _ => le_trans⟩

theorem sortByKey_perm (l : List α) : (sortByKey key l).Perm l := List.perm_insertionSort _ l

theorem sortByKey_pairwise (l : List α) :
    (sortByKey key l).Pairwise fun a b => key a ≤ key b := List.pairwise_insertionSort _ l

theorem mem_sortByKey {l : List α} {a : α} : a ∈ sortByKey key l ↔ a ∈ l :=
  (sortByKey_perm key l).mem_iff

theorem sortByKey_eq_self {l : List α} (h : l.Pairwise fun a b => key a ≤ key b) :
    sortByKey key l = l := h.insertionSort_eq

theorem sortByKey_sortByKey (l : List α) :
    sortByKey key (sortByKey key l) = sortByKey key l :=
  sortByKey_eq_self key (sortByKey_pairwise key l)

/-- With distinct keys the sorted list depends on the members only. -/
theorem sortByKey_eq_of_perm {l m : List α} (h : l.Perm m) (hnodup : (l.map key).Nodup) :
    sortByKey key l = sortByKey key m := by
  refine List.Perm.eq_of_pairwise ?_ (sortByKey_pairwise key l) (sortByKey_pairwise key m)
    (((sortByKey_perm key l).trans h).trans (sortByKey_perm key m).symm)
  intro a b ha hb hab hba
  have ha' : a ∈ l := (mem_sortByKey key).mp ha
  have hb' : b ∈ l := h.mem_iff.mpr ((mem_sortByKey key).mp hb)
  exact List.inj_on_of_nodup_map hnodup ha' hb' (le_antisymm hab hba)

theorem hasEqualNeighbours_eq_false_iff (l : List α) :
    hasEqualNeighbours key l = false ↔ l.IsChain fun a b => key a ≠ key b := by
  induction l with
  | nil => simp [hasEqualNeighbours]
  | cons a l ih =>
    cases l with
    | nil => simp [hasEqualNeighbours]
    | cons b l => simp [hasEqualNeighbours, List.isChain_cons_cons, ih]

/-- In sorted order, no equal neighbours means strictly increasing keys. -/
theorem hasEqualNeighbours_sorted {l : List α} (hl : l.Pairwise fun a b => key a ≤ key b) :
    hasEqualNeighbours key l = false ↔ l.Pairwise fun a b => key a < key b := by
  rw [hasEqualNeighbours_eq_false_iff]
  have htrans : IsTrans α fun a b => key a < key b := ⟨fun _ _ _ => lt_trans⟩
  rw [← List.isChain_iff_pairwise]
  have hchain : l.IsChain fun a b => key a ≤ key b := hl.isChain
  constructor
  · intro hne
    rw [List.isChain_iff_getElem] at hne hchain ⊢
    exact fun i hi => lt_of_le_of_ne (hchain i hi) (hne i hi)
  · intro hlt
    exact hlt.imp fun a b h => ne_of_lt h

/-- The neighbour test on the sorted list finds any repetition in the original. -/
theorem hasEqualNeighbours_sortByKey (l : List α) :
    hasEqualNeighbours key (sortByKey key l) = false ↔ (l.map key).Nodup := by
  rw [hasEqualNeighbours_sorted key (sortByKey_pairwise key l)]
  have hperm := ((sortByKey_perm key l).map key).nodup_iff
  rw [← hperm, List.Nodup, List.pairwise_map]
  constructor
  · intro hlt
    exact hlt.imp fun h => ne_of_lt h
  · intro hne
    exact (hne.and (sortByKey_pairwise key l)).imp fun h => lt_of_le_of_ne h.2 h.1

end MayflyAgent.KeyedSort
