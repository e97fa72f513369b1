import MayflyAgent.Checks
import Mathlib.Data.List.Nodup

/-!
Records whose fields are overridden one by one. An override reads the value of a field out of a raw
one, which may fail, and puts it into the record. So a record that overrides leave has every field
from its own raw value, or else from the record before, whatever the order in which they were
applied; and a failure is that of one raw value.
-/
namespace MayflyAgent.Overrides

open Checks

/-- A record of type `C` that its fields determine, with a reader of raw values for each of them. -/
structure Record (F V C E : Type) where
  Value : F → Type
  view : (f : F) → C → Value f
  put : (f : F) → Value f → C → C
  parse : (f : F) → V → Except E (Value f)
  view_put : ∀ (f : F) (u : Value f) (c : C), view f (put f u c) = u
  view_put_other : ∀ {f g : F} (u : Value f) (c : C), g ≠ f → view g (put f u c) = view g c
  ext : ∀ {c c' : C}, (∀ f, view f c = view f c') → c = c'

namespace Record

variable {F V C E : Type} (r : Record F V C E) (raw : F → Option V)

def override (f : F) (c : C) : Except E C :=
  match raw f with
  | some v => do
    let u ← r.parse f v
    pure (r.put f u c)
  | none => .ok c

/-- All overrides, in this order. -/
def overrideAll : List F → C → Except E C
  | [], c => .ok c
  | f :: fs, c => r.override raw f c >>= overrideAll fs

/-- The field of the second record is that of the raw value, or else that of the first record. -/
def Layered (f : F) (c c' : C) : Prop :=
  match raw f with
  | some v => r.parse f v = .ok (r.view f c')
  | none => r.view f c' = r.view f c

variable {r raw} {f : F} {fs : List F} {c c' d d' : C} {e : E}

theorem override_some {v : V} (h : raw f = some v) : r.override raw f c = (do
    let u ← r.parse f v
    pure (r.put f u c)) := by
  rw [override, h]

theorem override_none (h : raw f = none) : r.override raw f c = .ok c := by
  rw [override, h]

/-- What a field is layered from and what comes out of it is all that matters. -/
theorem layered_congr (hview : r.view f c = r.view f d) (hview' : r.view f c' = r.view f d') :
    r.Layered raw f c c' ↔ r.Layered raw f d d' := by
  unfold Layered
  cases raw f with
  | some v => rw [hview']
  | none => rw [hview, hview']

/-- A field that has the same raw value, or none and the same value before, comes out the same. -/
theorem Layered.view_eq {raw' : F → Option V} (h : r.Layered raw f c c')
    (h' : r.Layered raw' f d d') (hraw : raw f = raw' f)
    (hview : raw f = none → r.view f c = r.view f d) : r.view f c' = r.view f d' := by
  unfold Layered at h h'
  rw [← hraw] at h'
  cases hv : raw f with
  | some v =>
    rw [hv] at h h'
    exact Except.ok.inj (h.symm.trans h')
  | none =>
    rw [hv] at h h'
    exact h.trans ((hview hv).trans h'.symm)

theorem override_eq_ok : r.override raw f c = .ok c' ↔
    r.Layered raw f c c' ∧ ∀ g, g ≠ f → r.view g c' = r.view g c := by
  have heq : ∀ {c₁ : C}, r.view f c' = r.view f c₁ → (∀ g, g ≠ f → r.view g c' = r.view g c₁) →
      c₁ = c' := by
    intro c₁ hsame hother
    refine r.ext fun g => ?_
    by_cases hg : g = f
    · rw [hg, hsame]
    · rw [hother g hg]
  unfold override Layered
  cases raw f with
  | some v =>
    simp only [bind_eq_ok, pure_eq_ok]
    constructor
    · rintro ⟨u, hu, rfl⟩
      exact ⟨by rw [hu, r.view_put], fun g hg => r.view_put_other u c hg⟩
    · rintro ⟨hparse, hother⟩
      refine ⟨_, hparse, heq (r.view_put ..).symm fun g hg => ?_⟩
      rw [hother g hg, r.view_put_other _ c hg]
  | none =>
    constructor
    · intro h
      obtain rfl := Except.ok.inj h
      exact ⟨rfl, fun _ _ => rfl⟩
    · exact fun ⟨hsame, hother⟩ => congrArg Except.ok (heq hsame hother)

/-- A field that can be layered can be overridden. -/
theorem override_of_layered (h : r.Layered raw f c c') (d : C) :
    ∃ d', r.override raw f d = .ok d' := by
  unfold Layered at h
  cases hraw : raw f with
  | some v =>
    rw [hraw] at h
    refine ⟨r.put f (r.view f c') d, ?_⟩
    rw [override_some hraw, h]
    rfl
  | none => exact ⟨d, override_none hraw⟩

/-- What the overrides leave is determined field by field. -/
theorem overrideAll_eq_ok (hnodup : fs.Nodup) : r.overrideAll raw fs c = .ok c' ↔
    (∀ f ∈ fs, r.Layered raw f c c') ∧ ∀ f, f ∉ fs → r.view f c' = r.view f c := by
  induction fs generalizing c with
  | nil =>
    refine ⟨fun h => ?_, fun ⟨_, hsame⟩ => ?_⟩
    · obtain rfl := Except.ok.inj h
      exact ⟨fun _ h => (by cases h), fun _ _ => rfl⟩
    · exact congrArg Except.ok (r.ext fun f => (hsame f List.not_mem_nil).symm)
  | cons f fs ih =>
    obtain ⟨hf, hfs⟩ := List.nodup_cons.mp hnodup
    have hne : ∀ {g : F}, g ∈ fs → g ≠ f := fun hg h => hf (h ▸ hg)
    rw [overrideAll, bind_eq_ok]
    constructor
    · rintro ⟨c₁, hfirst, hrest⟩
      obtain ⟨hlayered, hother⟩ := override_eq_ok.mp hfirst
      obtain ⟨hall, hsame⟩ := (ih hfs).mp hrest
      refine ⟨fun g hg => ?_, fun g hg => ?_⟩
      · rcases List.mem_cons.mp hg with rfl | hg
        · exact (layered_congr rfl (hsame g hf).symm).mp hlayered
        · exact (layered_congr (hother g (hne hg)) rfl).mp (hall g hg)
      · obtain ⟨hgf, hnot⟩ := not_or.mp (mt List.mem_cons.mpr hg)
        exact (hsame g hnot).trans (hother g hgf)
    · rintro ⟨hall, hsame⟩
      have hf' := hall f (List.mem_cons_self ..)
      obtain ⟨c₁, hfirst⟩ := override_of_layered hf' c
      obtain ⟨hlayered, hother⟩ := override_eq_ok.mp hfirst
      refine ⟨c₁, hfirst, (ih hfs).mpr ⟨fun g hg => ?_, fun g hg => ?_⟩⟩
      · exact (layered_congr (hother g (hne hg)).symm rfl).mp (hall g (List.mem_cons_of_mem _ hg))
      · by_cases hgf : g = f
        · rw [hgf]
          exact hf'.view_eq hlayered rfl fun _ => rfl
        · have hnot : g ∉ f :: fs := fun h => (List.mem_cons.mp h).elim hgf hg
          exact (hsame g hnot).trans (hother g hgf).symm

theorem override_eq_error (h : r.override raw f c = .error e) :
    ∃ v, raw f = some v ∧ r.parse f v = .error e := by
  cases hraw : raw f with
  | some v =>
    rw [override_some hraw, bind_eq_error] at h
    rcases h with hparse | ⟨_, _, hput⟩
    · exact ⟨v, rfl, hparse⟩
    · cases hput
  | none =>
    rw [override_none hraw] at h
    cases h

/-- Overrides fail with the error of one raw value. -/
theorem overrideAll_eq_error (h : r.overrideAll raw fs c = .error e) :
    ∃ f ∈ fs, ∃ v, raw f = some v ∧ r.parse f v = .error e := by
  induction fs generalizing c with
  | nil => cases h
  | cons f fs ih =>
    rw [overrideAll, bind_eq_error] at h
    rcases h with hfirst | ⟨c₁, _, hrest⟩
    · exact ⟨f, List.mem_cons_self .., override_eq_error hfirst⟩
    · obtain ⟨g, hg, hv⟩ := ih hrest
      exact ⟨g, List.mem_cons_of_mem _ hg, hv⟩

end Record

end MayflyAgent.Overrides
