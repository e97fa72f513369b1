import MayflyAgent.Programs
import Mathlib.Algebra.BigOperators.Group.List.Basic
import Mathlib.Algebra.Order.IsBotOne
import Mathlib.Algebra.Order.Monoid.Unbundled.Basic

/-!
Budgets for what a program still does. Every call has a cost in some ordered monoid, so several
costs can be counted at once; it need not be commutative, so that a cost may keep the order of the
calls. A program stays within a budget when it ends, whatever is answered, and its calls cost no
more. It winds down when this holds of what is left of it behind every call after which some
condition on the world holds.
-/
namespace MayflyAgent.Budgets

open Programs Program

variable {S : Signature} {W α β ε C : Type}
  [AddMonoid C] [Preorder C]

/-- Whatever is answered, the program ends within the budget, and with `Q`. -/
def Within (env : Environment S W) (cost : S.Op → C) (Q : α → W → Prop) :
    Program S α → W → C → Prop
  | done a, w, _ => Q a w
  | call op next, w, budget => ∃ left, cost op + left ≤ budget ∧
      ∀ answer w', env w op answer w' → Within env cost Q (next answer) w' left
  | running, _, _ => False

/-- Whatever is answered, the program ends. -/
def Terminates (env : Environment S W) (p : Program S α) (w : W) : Prop :=
  Within env (fun _ => 0) (fun _ _ => True) p w 0

/-- Behind each of the first calls after which the world is a `stopped` one, that call and what is
left of the program stay within the budget. -/
def WindsDown (env : Environment S W) (cost : S.Op → C) (stopped : W → Prop) (Q : α → W → Prop)
    (budget : C) : Program S α → Nat → W → Prop
  | call op next, n + 1, w => ∀ answer w', env w op answer w' →
      (stopped w' → ∃ left, cost op + left ≤ budget ∧ Within env cost Q (next answer) w' left) ∧
      WindsDown env cost stopped Q budget (next answer) n w'
  | _, _, _ => True

/-- Whatever is answered, a result of the program is one of these. -/
def Yields (P : α → Prop) : Program S α → Prop
  | done a => P a
  | call _ next => ∀ answer, Yields P (next answer)
  | running => True

/-- The events lead from the start of one program to another, which is what is left of it. -/
inductive Leads (env : Environment S W) :
    Program S α → W → List (Event S W) → Program S α → W → Prop
  | refl (p : Program S α) (w : W) : Leads env p w [] p w
  | step {op : S.Op} {next : S.Answer op → Program S α} {answer : S.Answer op} {w w₁ w₂ : W}
      {trace : List (Event S W)} {q : Program S α} (henv : env w op answer w₁)
      (hrest : Leads env (next answer) w₁ trace q w₂) :
      Leads env (call op next) w (⟨w, op, answer, w₁⟩ :: trace) q w₂

/-- The program ends, whatever is answered, and every call it can make satisfies `P`. -/
def EndsCalling (P : S.Op → Prop) : Program S α → Prop
  | done _ => True
  | call op next => P op ∧ ∀ answer, EndsCalling P (next answer)
  | running => False

/-- What a trace cost. -/
def spent (cost : S.Op → C) (trace : List (Event S W)) : C := (trace.map fun e => cost e.op).sum

theorem yields_of_all {P : α → Prop} (hP : ∀ a, P a) (p : Program S α) : Yields P p := by
  induction p with
  | done a => exact hP a
  | call op next ih => exact ih
  | running => trivial

theorem Yields.bind {P : α → Prop} {P' : β → Prop} {p : Program S α} {f : α → Program S β}
    (hp : Yields P p) (hf : ∀ a, P a → Yields P' (f a)) : Yields P' (p >>= f) := by
  induction p with
  | done a => exact hf a hp
  | call op next ih => exact fun answer => ih answer (hp answer)
  | running => trivial

theorem exec_yields {env : Environment S W} {P : α → Prop} {p : Program S α} {w w' : W}
    {trace : List (Event S W)} {a : α} (h : Exec env p w trace (some a) w') (hp : Yields P p) :
    P a := by
  induction p generalizing w trace with
  | done a' =>
    cases h with
    | finished => exact hp
  | call op next ih =>
    cases h with
    | step _ hrest => exact ih _ hrest (hp _)
  | running => cases h

/-- The results of a fallible action that went well are such. -/
def YieldsOk (P : α → Prop) (x : Action S ε α) : Prop :=
  Yields (fun r => ∀ a, r = .ok a → P a) x.run

theorem yieldsOk_trivial (x : Action S ε α) : YieldsOk (fun _ => True) x :=
  yields_of_all (fun _ _ _ => trivial) _

theorem yieldsOk_pure {P : α → Prop} {a : α} (h : P a) : YieldsOk P (pure a : Action S ε α) := by
  rintro b hb
  cases hb
  exact h

theorem YieldsOk.andThen {P : α → Prop} {P' : β → Prop} {x : Action S ε α} {f : α → Action S ε β}
    (hx : YieldsOk P x) (hf : ∀ a, P a → YieldsOk P' (f a)) : YieldsOk P' (x >>= f) := by
  rw [YieldsOk, run_bind]
  refine Yields.bind hx fun r hr => ?_
  cases r with
  | ok a => exact hf a (hr a rfl)
  | error e =>
    intro b hb
    cases hb

section Finite

variable {P : S.Op → Prop}

theorem EndsCalling.calls {p : Program S α} (h : EndsCalling P p) : p.Calls P := by
  induction p with
  | done a => trivial
  | call op next ih => exact ⟨h.1, fun answer => ih answer (h.2 answer)⟩
  | running => exact h.elim

theorem EndsCalling.mono {P' : S.Op → Prop} {p : Program S α} (h : EndsCalling P p)
    (hP : ∀ op, P op → P' op) : EndsCalling P' p := by
  induction p with
  | done a => trivial
  | call op next ih => exact ⟨hP op h.1, fun answer => ih answer (h.2 answer)⟩
  | running => exact h.elim

theorem EndsCalling.bind {p : Program S α} {f : α → Program S β} (hp : EndsCalling P p)
    (hf : ∀ a, EndsCalling P (f a)) : EndsCalling P (p >>= f) := by
  induction p with
  | done a => exact hf a
  | call op next ih => exact ⟨hp.1, fun answer => ih answer (hp.2 answer)⟩
  | running => exact hp.elim

theorem endsCalling_bind {x : Action S ε α} {f : α → Action S ε β} (hx : EndsCalling P x.run)
    (hf : ∀ a, EndsCalling P (f a).run) : EndsCalling P (x >>= f).run := by
  rw [run_bind]
  refine hx.bind fun r => ?_
  cases r with
  | ok a => exact hf a
  | error e => trivial

theorem endsCalling_perform {op : S.Op} (h : P op) :
    EndsCalling P (Action.perform op : Action S ε (S.Answer op)).run := ⟨h, fun _ => trivial⟩

theorem endsCalling_attempt {x : Action S ε α} (hx : EndsCalling P x.run) :
    EndsCalling P x.attempt.run := hx.bind fun _ => trivial

/-- Where nothing is counted, such a program stays within the budget and keeps what its calls
keep. -/
theorem EndsCalling.within {env : Environment S W} {I : W → Prop} {p : Program S α} {w : W}
    (h : EndsCalling P p) (hI : ∀ w op answer w', env w op answer w' → I w → I w') (hw : I w) :
    Within env (fun _ => 0) (fun _ w' => I w') p w 0 := by
  induction p generalizing w with
  | done a => exact hw
  | call op next ih =>
    exact ⟨0, le_rfl, fun answer w' henv => ih answer (h.2 answer) (hI w op answer w' henv hw)⟩
  | running => exact h.elim

theorem EndsCalling.windsDown {env : Environment S W} {I : W → Prop} {p : Program S α} {n : Nat}
    {w : W} (h : EndsCalling P p) (hI : ∀ w op answer w', env w op answer w' → I w → I w') :
    WindsDown env (fun _ => 0) I (fun _ w' => I w') 0 p n w := by
  induction p generalizing w n with
  | done a => cases n <;> trivial
  | call op next ih =>
    cases n with
    | zero => trivial
    | succ n =>
      intro answer w' _
      exact ⟨fun hw' => ⟨0, le_rfl, (h.2 answer).within hI hw'⟩, ih answer (h.2 answer)⟩
  | running => exact h.elim

end Finite

section Rules

variable {env : Environment S W} {cost : S.Op → C} {Q : α → W → Prop} {R : β → W → Prop}
  {w w' : W} {budget budget' total : C}

theorem Within.mono {p : Program S α} (h : Within env cost Q p w budget)
    (hbudget : budget ≤ budget') : Within env cost Q p w budget' := by
  cases p with
  | done a => exact h
  | call op next =>
    obtain ⟨left, hcost, hnext⟩ := h
    exact ⟨left, hcost.trans hbudget, hnext⟩
  | running => exact h

theorem Within.post {Q' : α → W → Prop} {p : Program S α} (h : Within env cost Q p w budget)
    (hQ : ∀ a w', Q a w' → Q' a w') : Within env cost Q' p w budget := by
  induction p generalizing w budget with
  | done a => exact hQ a w h
  | call op next ih =>
    obtain ⟨left, hcost, hnext⟩ := h
    exact ⟨left, hcost, fun answer w' henv => ih answer (hnext answer w' henv)⟩
  | running => exact h

theorem Within.yields {P : α → Prop} {p : Program S α} (h : Within env cost Q p w budget)
    (hp : Yields P p) : Within env cost (fun a w' => P a ∧ Q a w') p w budget := by
  induction p generalizing w budget with
  | done a => exact ⟨hp, h⟩
  | call op next ih =>
    obtain ⟨left, hcost, hnext⟩ := h
    exact ⟨left, hcost, fun answer w' henv => ih answer (hnext answer w' henv) (hp answer)⟩
  | running => exact h

variable {stopped : W → Prop}

theorem windsDown_done {a : α} {n : Nat} :
    WindsDown env cost stopped Q budget (done a : Program S α) n w := by
  cases n <;> trivial

theorem WindsDown.mono {p : Program S α} {n : Nat} (h : WindsDown env cost stopped Q budget p n w)
    (hbudget : budget ≤ budget') : WindsDown env cost stopped Q budget' p n w := by
  induction p generalizing w n with
  | done a => exact windsDown_done
  | running => cases n <;> trivial
  | call op next ih =>
    cases n with
    | zero => trivial
    | succ n =>
      intro answer w' henv
      obtain ⟨hstopped, hnext⟩ := h answer w' henv
      refine ⟨fun hw' => ?_, ih answer hnext⟩
      obtain ⟨left, hcost, hleft⟩ := hstopped hw'
      exact ⟨left, hcost.trans hbudget, hleft⟩

theorem WindsDown.post {Q' : α → W → Prop} {p : Program S α} {n : Nat}
    (h : WindsDown env cost stopped Q budget p n w) (hQ : ∀ a w', Q a w' → Q' a w') :
    WindsDown env cost stopped Q' budget p n w := by
  induction p generalizing w n with
  | done a => exact windsDown_done
  | running => cases n <;> trivial
  | call op next ih =>
    cases n with
    | zero => trivial
    | succ n =>
      intro answer w' henv
      obtain ⟨hstopped, hnext⟩ := h answer w' henv
      refine ⟨fun hw' => ?_, ih answer hnext⟩
      obtain ⟨left, hcost, hleft⟩ := hstopped hw'
      exact ⟨left, hcost, hleft.post hQ⟩

theorem WindsDown.fewer {p : Program S α} {n m : Nat}
    (h : WindsDown env cost stopped Q budget p n w) (hm : m ≤ n) :
    WindsDown env cost stopped Q budget p m w := by
  induction p generalizing w n m with
  | done a => exact windsDown_done
  | running => cases m <;> trivial
  | call op next ih =>
    cases m with
    | zero => trivial
    | succ m =>
      cases n with
      | zero => exact absurd hm (Nat.not_succ_le_zero m)
      | succ n =>
        intro answer w' henv
        obtain ⟨hstopped, hnext⟩ := h answer w' henv
        exact ⟨hstopped, ih answer hnext (Nat.le_of_succ_le_succ hm)⟩

theorem leads_nil {p q : Program S α} (h : Leads env p w [] q w') : q = p ∧ w' = w := by
  cases h
  exact ⟨rfl, rfl⟩

theorem leads_after {p q : Program S α} {past : List (Event S W)} {e : Event S W}
    (h : Leads env p w (past ++ [e]) q w') : w' = e.after := by
  induction past generalizing p w with
  | nil =>
    cases h with
    | step _ hrest => exact (leads_nil hrest).2
  | cons first past ih =>
    cases h with
    | step _ hrest => exact ih hrest

/-- Behind the call after which the world is stopped, what is left of the program ends. -/
theorem WindsDown.ends {p q : Program S α} {n : Nat} {past : List (Event S W)} {e : Event S W}
    (h : WindsDown env cost stopped Q budget p n w)
    (hleads : Leads env p w (past ++ [e]) q w') (hpast : past.length < n) (hw' : stopped w') :
    ∃ left, cost e.op + left ≤ budget ∧ Within env cost Q q w' left := by
  induction past generalizing p n w with
  | nil =>
    cases hleads with
    | step henv hrest =>
      obtain ⟨rfl, rfl⟩ := leads_nil hrest
      cases n with
      | zero => exact absurd hpast (Nat.not_lt_zero _)
      | succ n => exact (h _ _ henv).1 hw'
  | cons first past ih =>
    cases hleads with
    | step henv hrest =>
      cases n with
      | zero => exact absurd hpast (Nat.not_lt_zero _)
      | succ n => exact ih (h _ _ henv).2 hrest (Nat.lt_of_succ_lt_succ hpast)

/-- An execution leads to where it is cut. -/
theorem exec_leads {p : Program S α} {past rest : List (Event S W)} {result : Option α}
    (h : Exec env p w (past ++ rest) result w') :
    ∃ q v, Leads env p w past q v ∧ Exec env q v rest result w' := by
  induction past generalizing p w with
  | nil => exact ⟨p, w, Leads.refl p w, h⟩
  | cons e past ih =>
    cases h with
    | step henv hrest =>
      obtain ⟨q, v, hleads, hexec⟩ := ih hrest
      exact ⟨q, v, Leads.step henv hleads, hexec⟩

theorem within_perform {op : S.Op} {F : Except ε (S.Answer op) → W → Prop}
    (h : ∀ answer w', env w op answer w' → F (.ok answer) w') :
    Within env cost F (Action.perform op : Action S ε (S.Answer op)).run w (cost op) :=
  ⟨0, (add_zero _).le, h⟩

theorem windsDown_perform {op : S.Op} {F : Except ε (S.Answer op) → W → Prop} {n : Nat}
    (h : ∀ answer w', env w op answer w' → stopped w' → F (.ok answer) w') :
    WindsDown env cost stopped F (cost op)
      (Action.perform op : Action S ε (S.Answer op)).run n w := by
  cases n with
  | zero => trivial
  | succ n =>
    intro answer w' henv
    exact ⟨fun hw' => ⟨0, (add_zero _).le, h answer w' henv hw'⟩, windsDown_done⟩

section Sums

variable {T : Signature} {env : Environment (S.sum T) W} {cost : (S.sum T).Op → C}

theorem Within.inl {p : Program S α} (h : Within (fun v op answer v' => env v (.inl op) answer v')
    (fun op => cost (.inl op)) Q p w budget) : Within env cost Q p.inl w budget := by
  induction p generalizing w budget with
  | done a => exact h
  | call op next ih =>
    obtain ⟨left, hcost, hnext⟩ := h
    exact ⟨left, hcost, fun answer w' henv => ih answer (hnext answer w' henv)⟩
  | running => exact h

theorem WindsDown.inl {p : Program S α} {n : Nat}
    (h : WindsDown (fun v op answer v' => env v (.inl op) answer v') (fun op => cost (.inl op))
      stopped Q budget p n w) : WindsDown env cost stopped Q budget p.inl n w := by
  induction p generalizing w n with
  | done a => cases n <;> trivial
  | running => cases n <;> trivial
  | call op next ih =>
    cases n with
    | zero => trivial
    | succ n =>
      intro answer w' henv
      obtain ⟨hstopped, hnext⟩ := h answer w' henv
      refine ⟨fun hw' => ?_, ih answer hnext⟩
      obtain ⟨left, hcost, hleft⟩ := hstopped hw'
      exact ⟨left, hcost, hleft.inl⟩

end Sums

theorem Within.spent_le [AddLeftMono C] [IsBotZeroClass C] {p : Program S α}
    {trace : List (Event S W)} {result : Option α}
    (h : Within env cost Q p w budget) (hexec : Exec env p w trace result w') :
    spent cost trace ≤ budget ∧ ∀ a, result = some a → Q a w' := by
  induction hexec generalizing budget with
  | finished a w =>
    refine ⟨zero_le, fun b hb => ?_⟩
    obtain rfl := Option.some.inj hb
    exact h
  | killed p w => exact ⟨zero_le, nofun⟩
  | step henv _ ih =>
    obtain ⟨left, hcost, hnext⟩ := h
    obtain ⟨hspent, hend⟩ := ih (hnext _ _ henv)
    refine ⟨?_, hend⟩
    rw [spent, List.map_cons, List.sum_cons]
    exact (add_le_add_right hspent _).trans hcost

variable [AddRightMono C] [IsBotZeroClass C]

theorem Within.bind {p : Program S α} {f : α → Program S β} (h : Within env cost Q p w budget)
    (hf : ∀ a w', Q a w' → Within env cost R (f a) w' budget') (htotal : budget + budget' ≤ total) :
    Within env cost R (p >>= f) w total := by
  induction p generalizing w budget total with
  | done a => exact (hf a w h).mono ((le_add_of_nonneg_left zero_le).trans htotal)
  | call op next ih =>
    obtain ⟨left, hcost, hnext⟩ := h
    refine ⟨left + budget', ?_, fun answer w' henv => ih answer (hnext answer w' henv) le_rfl⟩
    rw [← add_assoc]
    exact (add_le_add_left hcost _).trans htotal
  | running => exact h.elim

/-- In a sequence, what is left of the first part is followed by the whole second part. -/
theorem WindsDown.bind {P : α → Prop} {p : Program S α} {f : α → Program S β} {n : Nat}
    (h : WindsDown env cost stopped Q budget p n w) (hp : Yields P p)
    (hleft : 0 < n → ∀ a w', P a → Q a w' → Within env cost R (f a) w' budget')
    (hf : ∀ a w', P a → WindsDown env cost stopped R total (f a) n w')
    (htotal : budget + budget' ≤ total) : WindsDown env cost stopped R total (p >>= f) n w := by
  induction p generalizing w n with
  | done a => exact hf a w hp
  | running => cases n <;> trivial
  | call op next ih =>
    cases n with
    | zero => trivial
    | succ n =>
      intro answer w' henv
      obtain ⟨hstopped, hnext⟩ := h answer w' henv
      refine ⟨fun hw' => ?_, ih answer hnext (hp answer) (fun _ => hleft (Nat.succ_pos n))
        fun a w'' ha => (hf a w'' ha).fewer (Nat.le_succ n)⟩
      obtain ⟨left, hcost, hwithin⟩ := hstopped hw'
      have hboth := hwithin.yields (hp answer)
      have hrest := hboth.bind (fun a w'' ha => hleft (Nat.succ_pos n) a w'' ha.1 ha.2) le_rfl
      refine ⟨left + budget', ?_, hrest⟩
      rw [← add_assoc]
      exact (add_le_add_left hcost _).trans htotal

theorem Within.andThen {x : Action S ε α} {f : α → Action S ε β}
    {F : Except ε α → W → Prop} {G : Except ε β → W → Prop}
    (h : Within env cost F x.run w budget)
    (hf : ∀ a w', F (.ok a) w' → Within env cost G (f a).run w' budget')
    (herror : ∀ e w', F (.error e) w' → G (.error e) w')
    (htotal : budget + budget' ≤ total) : Within env cost G (x >>= f).run w total := by
  rw [run_bind]
  refine h.bind (fun r w' hF => ?_) htotal
  cases r with
  | ok a => exact hf a w' hF
  | error e => exact herror e w' hF

theorem WindsDown.andThen {P : α → Prop} {x : Action S ε α} {f : α → Action S ε β} {n : Nat}
    {F : Except ε α → W → Prop} {G : Except ε β → W → Prop}
    (h : WindsDown env cost stopped F budget x.run n w)
    (hx : YieldsOk P x)
    (hleft : 0 < n → ∀ a w', P a → F (.ok a) w' → Within env cost G (f a).run w' budget')
    (herror : ∀ e w', F (.error e) w' → G (.error e) w')
    (hf : ∀ a w', P a → WindsDown env cost stopped G total (f a).run n w')
    (htotal : budget + budget' ≤ total) :
    WindsDown env cost stopped G total (x >>= f).run n w := by
  rw [run_bind]
  refine h.bind hx (fun hn r w' hr hF => ?_) (fun r w' hr => ?_) htotal
  · cases r with
    | ok a => exact hleft hn a w' (hr a rfl) hF
    | error e => exact herror e w' hF
  · cases r with
    | ok a => exact hf a w' (hr a rfl)
    | error e => exact windsDown_done

end Rules

end MayflyAgent.Budgets
