import MayflyAgent.Budgets

/-!
Programs that come to a call. However its calls are answered, such a program makes a call of some
kind before long: only so many others come first, and each of them is answered. Before that it may
only end with a result of some kind.
-/
namespace MayflyAgent.Arrivals

open Programs Program Budgets

variable {S : Signature} {W α β ε : Type}

/-- Whatever is answered, the program makes a call with `P` behind at most so many others, which can
all be answered, or ends before that, and with `Q`. -/
def ComesTo (env : Environment S W) (P : S.Op → Prop) (Q : α → W → Prop) :
    Program S α → W → Nat → Prop
  | done a, w, _ => Q a w
  | call op _, _, 0 => P op
  | call op next, w, n + 1 => P op ∨ (∃ answer w', env w op answer w') ∧
      ∀ answer w', env w op answer w' → ComesTo env P Q (next answer) w' n
  | running, _, _ => False

/-- An action ends with this result or this error. -/
def Ends (F : ε → W → Prop) (Q : α → W → Prop) : Except ε α → W → Prop
  | .ok a => Q a
  | .error e => F e

section Rules

variable {env : Environment S W} {P : S.Op → Prop} {Q : α → W → Prop} {F : ε → W → Prop}
  {w : W} {n m : Nat}

theorem comesTo_here {op : S.Op} {next : S.Answer op → Program S α} (h : P op) :
    ComesTo env P Q (call op next) w n := by
  cases n with
  | zero => exact h
  | succ n => exact Or.inl h

theorem ComesTo.mono {p : Program S α} (h : ComesTo env P Q p w n) (hle : n ≤ m) :
    ComesTo env P Q p w m := by
  induction p generalizing w n m with
  | done a => exact h
  | running => exact h
  | call op next ih =>
    cases n with
    | zero => exact comesTo_here h
    | succ n =>
      rcases h with h | ⟨hanswer, hnext⟩
      · exact comesTo_here h
      · obtain ⟨m, rfl⟩ := Nat.exists_eq_add_of_le' (Nat.one_le_of_lt hle)
        exact Or.inr ⟨hanswer, fun answer w' henv =>
          ih answer (hnext answer w' henv) (Nat.le_of_succ_le_succ hle)⟩

/-- A program that comes to the call itself, or ends where the rest comes to it. -/
theorem ComesTo.bind {Q : β → W → Prop} {p : Program S α} {f : α → Program S β}
    (h : ComesTo env P (fun a v => ComesTo env P Q (f a) v m) p w n) :
    ComesTo env P Q (p >>= f) w (n + m) := by
  induction p generalizing w n with
  | done a => exact ComesTo.mono h (Nat.le_add_left m n)
  | running => exact h
  | call op next ih =>
    cases n with
    | zero => exact comesTo_here h
    | succ n =>
      rcases h with h | ⟨hanswer, hnext⟩
      · exact comesTo_here h
      · rw [Nat.succ_add]
        exact Or.inr ⟨hanswer, fun answer w' henv => ih answer (hnext answer w' henv)⟩

theorem ComesTo.post {Q' : α → W → Prop} {p : Program S α} (h : ComesTo env P Q p w n)
    (hQ : ∀ a v, Q a v → Q' a v) : ComesTo env P Q' p w n := by
  induction p generalizing w n with
  | done a => exact hQ a w h
  | running => exact h
  | call op next ih =>
    cases n with
    | zero => exact h
    | succ n =>
      rcases h with h | ⟨hanswer, hnext⟩
      · exact comesTo_here h
      · exact Or.inr ⟨hanswer, fun answer w' henv => ih answer (hnext answer w' henv)⟩

theorem ComesTo.andThen {R : β → W → Prop} {x : Action S ε α} {f : α → Action S ε β}
    (hx : ComesTo env P (Ends F Q) x.run w n)
    (hf : ∀ a v, Q a v → ComesTo env P (Ends F R) (f a).run v m) :
    ComesTo env P (Ends F R) (x >>= f).run w (n + m) := by
  rw [run_bind]
  refine ComesTo.bind (hx.post fun r v hr => ?_)
  cases r with
  | ok a => exact hf a v hr
  | error e => exact hr

/-- A call that is answered. -/
theorem comesTo_perform {op : S.Op} {Q : S.Answer op → W → Prop}
    (hanswer : ∃ answer w', env w op answer w')
    (hQ : ∀ answer w', env w op answer w' → Q answer w') :
    ComesTo env P (Ends F Q) (Action.perform op : Action S ε (S.Answer op)).run w 1 :=
  Or.inr ⟨hanswer, hQ⟩

end Rules

section Leading

variable {env : Environment S W} {P : S.Op → Prop} {w w' : W} {past : List (Event S W)}
  {e : Event S W}

theorem leads_done {a : α} {q : Program S α} {trace : List (Event S W)}
    (h : Leads env (done a) w trace q w') : trace = [] := by
  cases h
  rfl

theorem leads_bind_past {p : Program S α} {f : α → Program S β} {q : Program S β} (hp : p.Calls P)
    (he : ¬ P e.op) (h : Leads env (p >>= f) w (past ++ [e]) q w') :
    ∃ a w₁ first rest, past = first ++ rest ∧ (∀ x ∈ first, P x.op) ∧
      Exec env p w first (some a) w₁ ∧ Leads env (f a) w₁ (rest ++ [e]) q w' := by
  induction p generalizing w past with
  | done a => exact ⟨a, w, [], past, rfl, by simp, Exec.finished a w, h⟩
  | running => cases past <;> cases h
  | call op next ih =>
    cases past with
    | nil =>
      cases h
      exact absurd hp.1 he
    | cons x past =>
      cases h with
      | step henv hrest =>
        obtain ⟨a, w₁, first, rest, rfl, hfirst, hexec, hleads⟩ := ih _ (hp.2 _) hrest
        exact ⟨a, w₁, _ :: first, rest, rfl, List.forall_mem_cons.mpr ⟨hp.1, hfirst⟩,
          Exec.step henv hexec, hleads⟩

theorem leads_past {x : Action S ε α} {f : α → Action S ε β} {q : Program S (Except ε β)}
    (hx : x.run.Calls P) (he : ¬ P e.op) (h : Leads env (x >>= f).run w (past ++ [e]) q w') :
    ∃ a w₁ first rest, past = first ++ rest ∧ (∀ x ∈ first, P x.op) ∧
      Exec env x.run w first (some (.ok a)) w₁ ∧ Leads env (f a).run w₁ (rest ++ [e]) q w' := by
  rw [run_bind] at h
  obtain ⟨r, w₁, first, rest, rfl, hfirst, hexec, hleads⟩ := leads_bind_past hx he h
  cases r with
  | ok a => exact ⟨a, w₁, first, rest, rfl, hfirst, hexec, hleads⟩
  | error e => exact absurd (leads_done hleads) (List.append_ne_nil_of_right_ne_nil _ (by simp))

end Leading

end MayflyAgent.Arrivals
