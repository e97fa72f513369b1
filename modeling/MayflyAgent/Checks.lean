import Mathlib.Logic.Basic

/-!
Sequences of checks that stop at the first failure. A sequence succeeds exactly
when each of its checks does, which turns a validator written as a sequence into
the conjunction of its rules.
-/
namespace MayflyAgent.Checks

variable {ε ε' α β : Type}

/-- Fail with `e` when the condition holds. -/
def rejectIf (bad : Prop) [Decidable bad] (e : ε) : Except ε Unit :=
  if bad then .error e else .ok ()

/-- The value of an option, or an error in its absence. -/
def okOr (o : Option α) (e : ε) : Except ε α :=
  match o with
  | some a => .ok a
  | none => .error e

/-- Check every member of a list, in order. -/
def checkAll (check : α → Except ε Unit) : List α → Except ε Unit
  | [] => .ok ()
  | a :: l => check a >>= fun _ => checkAll check l

theorem rejectIf_eq_ok {bad : Prop} [Decidable bad] {e : ε} {u : Unit} :
    rejectIf bad e = .ok u ↔ ¬ bad := by
  unfold rejectIf
  split <;> simp_all

theorem okOr_eq_ok {o : Option α} {e : ε} {a : α} : okOr o e = .ok a ↔ o = some a := by
  cases o <;> simp [okOr]

theorem bind_eq_ok {x : Except ε α} {f : α → Except ε β} {b : β} :
    (x >>= f) = .ok b ↔ ∃ a, x = .ok a ∧ f a = .ok b := by
  cases x with
  | error e => simp [bind, Except.bind]
  | ok a => simp [bind, Except.bind]

theorem bind_eq_error {x : Except ε α} {f : α → Except ε β} {e : ε} :
    (x >>= f) = .error e ↔ x = .error e ∨ ∃ a, x = .ok a ∧ f a = .error e := by
  cases x with
  | error e' => simp [bind, Except.bind]
  | ok a => simp [bind, Except.bind]

theorem check_bind_eq_ok {x : Except ε Unit} {f : Unit → Except ε β} {b : β} :
    (x >>= f) = .ok b ↔ x = .ok () ∧ f () = .ok b := by
  rw [bind_eq_ok]
  exact ⟨fun ⟨⟨⟩, h⟩ => h, fun h => ⟨(), h⟩⟩

theorem okOr_bind_eq_ok {o : Option α} {e : ε} {f : α → Except ε β} {b : β} :
    (okOr o e >>= f) = .ok b ↔ ∃ a, o = some a ∧ f a = .ok b := by
  simp only [bind_eq_ok, okOr_eq_ok]

theorem pure_eq_ok {a b : α} : (pure a : Except ε α) = .ok b ↔ a = b := by
  simp [pure, Except.pure]

theorem mapError_ok (f : ε → ε') (a : α) :
    (Except.ok a : Except ε α).mapError f = .ok a := rfl

theorem mapError_error (f : ε → ε') (e : ε) :
    (Except.error e : Except ε α).mapError f = .error (f e) := rfl

theorem mapError_eq_ok {x : Except ε α} {f : ε → ε'} {a : α} :
    x.mapError f = .ok a ↔ x = .ok a := by
  cases x with
  | error e => simp [mapError_error]
  | ok b => simp [mapError_ok]

theorem rejectIf_ne_error {bad : Prop} [Decidable bad] {e e' : ε} (h : e ≠ e') :
    rejectIf bad e ≠ .error e' := by
  unfold rejectIf
  split
  · exact fun heq => h (Except.error.inj heq)
  · exact nofun

theorem okOr_ne_error {o : Option α} {e e' : ε} (h : e ≠ e') : okOr o e ≠ .error e' := by
  cases o with
  | none => exact fun heq => h (Except.error.inj heq)
  | some a => exact nofun

theorem bind_ne_error {x : Except ε α} {f : α → Except ε β} {e : ε} (hx : x ≠ .error e)
    (hf : ∀ a, f a ≠ .error e) : (x >>= f) ≠ .error e := by
  cases x with
  | error e' => exact fun heq => hx (congrArg Except.error (Except.error.inj heq))
  | ok a => exact hf a

theorem pure_ne_error {a : α} {e : ε} : (pure a : Except ε α) ≠ .error e := nofun

theorem mapError_ne_error {x : Except ε α} {f : ε → ε'} {e : ε'} (h : ∀ e', f e' ≠ e) :
    x.mapError f ≠ .error e := by
  cases x with
  | error e' => exact fun heq => h e' (Except.error.inj heq)
  | ok a => exact nofun

theorem checkAll_ne_error {check : α → Except ε Unit} {e : ε} (h : ∀ a, check a ≠ .error e)
    (l : List α) : checkAll check l ≠ .error e := by
  induction l with
  | nil => exact nofun
  | cons a l ih => exact bind_ne_error (h a) fun _ => ih

theorem checkAll_eq_ok {check : α → Except ε Unit} {l : List α} :
    checkAll check l = .ok () ↔ ∀ a ∈ l, check a = .ok () := by
  induction l with
  | nil => simp [checkAll]
  | cons a l ih =>
    rw [checkAll, check_bind_eq_ok, List.forall_mem_cons, ih]

/-- A list of checks fails with the error of one of its members. -/
theorem checkAll_eq_error {check : α → Except ε Unit} {l : List α} {e : ε}
    (h : checkAll check l = .error e) : ∃ a ∈ l, check a = .error e := by
  induction l with
  | nil => cases h
  | cons a l ih =>
    rw [checkAll, bind_eq_error] at h
    rcases h with hfirst | ⟨_, _, hrest⟩
    · exact ⟨a, List.mem_cons_self .., hfirst⟩
    · obtain ⟨a', ha', hcheck⟩ := ih hrest
      exact ⟨a', List.mem_cons_of_mem _ ha', hcheck⟩

end MayflyAgent.Checks
