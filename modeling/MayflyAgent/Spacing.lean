import Mathlib.Algebra.Order.Monoid.Unbundled.Pow
import Mathlib.Algebra.Order.Monoid.Defs
import Mathlib.Data.List.Chain
import Mathlib.Tactic.GCongr

/-!
Lists of times that keep a distance: each is at least that much behind the one before. Times may
be of any ordered additive monoid. The n-th time is then at least n distances behind the first, and
between two bounds there is room for so many times only.
-/
namespace MayflyAgent.Spacing

variable {G : Type} [AddCommMonoid G] [PartialOrder G]

def Spaced (distance : G) (times : List G) : Prop := times.IsChain fun t t' => t + distance ≤ t'

variable {distance first last next : G} {times : List G}

theorem spaced_singleton (t : G) : Spaced distance [t] := List.isChain_singleton t

theorem spaced_append : Spaced distance (times ++ [last] ++ [next]) ↔
    Spaced distance (times ++ [last]) ∧ last + distance ≤ next := by
  rw [Spaced, List.append_assoc, List.singleton_append, List.isChain_append_cons_cons]
  simp [Spaced]

/-- The last time may be put off. -/
theorem Spaced.putOff (h : Spaced distance (times ++ [last])) (hle : last ≤ next) :
    Spaced distance (times ++ [next]) := by
  induction times using List.reverseRecOn with
  | nil => exact spaced_singleton next
  | append_singleton times t _ =>
    obtain ⟨htimes, hlast⟩ := spaced_append.mp h
    exact spaced_append.mpr ⟨htimes, hlast.trans hle⟩

variable [IsOrderedAddMonoid G]

/-- As many distances lie between the ends as there are steps. -/
theorem spaced_last (h : Spaced distance (first :: (times ++ [last]))) :
    first + (times.length + 1) • distance ≤ last := by
  induction times generalizing first with
  | nil => simpa [Spaced, one_nsmul] using h
  | cons t times ih =>
    obtain ⟨hhead, htail⟩ := List.isChain_cons_cons.mp h
    calc first + ((t :: times).length + 1) • distance
        = (first + distance) + (times.length + 1) • distance := by
          rw [List.length_cons, succ_nsmul', add_assoc]
      _ ≤ t + (times.length + 1) • distance := by gcongr
      _ ≤ last := ih htail

/-- Every time behind the first is at least the distance behind it. -/
theorem spaced_behind (hdistance : 0 ≤ distance) (h : Spaced distance (first :: times)) :
    ∀ t ∈ times, first + distance ≤ t := by
  induction times generalizing first with
  | nil => simp
  | cons t times ih =>
    obtain ⟨hhead, htail⟩ := List.isChain_cons_cons.mp h
    refine List.forall_mem_cons.mpr ⟨hhead, fun t' ht' => ?_⟩
    calc first + distance ≤ t := hhead
      _ ≤ t + distance := le_add_of_nonneg_right hdistance
      _ ≤ t' := ih htail t' ht'

/-- Only so many times have room between two bounds. -/
theorem spaced_countP (hdistance : 0 ≤ distance) (h : Spaced distance times) {low high : G}
    (hbounds : low ≤ high) (hhigh : ∀ t ∈ times, t ≤ high) {p : G → Bool}
    (hlow : ∀ t ∈ times, p t = true → low ≤ t) :
    low + times.countP p • distance ≤ high + distance := by
  induction times generalizing low with
  | nil =>
    rw [List.countP_nil, zero_nsmul, add_zero]
    exact hbounds.trans (le_add_of_nonneg_right hdistance)
  | cons t times ih =>
    obtain ⟨ht, hrest⟩ := List.forall_mem_cons.mp hhigh
    obtain ⟨hfirst, hlater⟩ := List.forall_mem_cons.mp hlow
    by_cases hp : p t = true
    · have hbehind := spaced_behind hdistance h
      rw [List.countP_cons_of_pos hp]
      cases times with
      | nil =>
        rw [List.countP_nil, Nat.zero_add, one_nsmul]
        gcongr
      | cons t' times =>
        have hnext := (hbehind t' (List.mem_cons_self ..)).trans (hrest t' (List.mem_cons_self ..))
        calc low + ((t' :: times).countP p + 1) • distance
            ≤ t + ((t' :: times).countP p + 1) • distance := by
              gcongr
              exact hfirst hp
          _ = t + distance + (t' :: times).countP p • distance := by rw [succ_nsmul', add_assoc]
          _ ≤ high + distance := ih h.tail hnext hrest fun t' ht' _ => hbehind t' ht'
    · rw [List.countP_cons_of_neg hp]
      exact ih h.tail hbounds hrest hlater

/-- Every time in front of the last is at least the distance before it. -/
theorem spaced_mem (hdistance : 0 ≤ distance) (h : Spaced distance (times ++ [last])) :
    ∀ t ∈ times, t + distance ≤ last := by
  induction times with
  | nil => simp
  | cons t times ih =>
    intro t' ht'
    rcases List.mem_cons.mp ht' with rfl | ht'
    · calc t' + distance ≤ t' + (times.length + 1) • distance := by
            rw [succ_nsmul]
            gcongr
            exact le_add_of_nonneg_left (nsmul_nonneg hdistance _)
        _ ≤ last := spaced_last h
    · exact ih h.tail t' ht'

end MayflyAgent.Spacing
