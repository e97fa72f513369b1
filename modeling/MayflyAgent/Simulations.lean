import MayflyAgent.Handlers

/-!
Programs that do alike. Each event of the first is matched by one of the second between the same
worlds, and the results match too. The two may run against different environments, and may make
different calls, as far as the relation between their events allows.
-/
namespace MayflyAgent.Programs

open Program

variable {S T : Signature} {W α β γ δ ε : Type}

/-- Whatever the first program goes through, the second can go through alike. -/
def Alike (env env' : Environment S W) (R : Event S W → Event S W → Prop) (Q : α → β → Prop) :
    Program S α → Program S β → Prop
  | done a, done b => Q a b
  | call op next, call op' next' => ∀ w answer w₁, env w op answer w₁ → ∃ answer',
      env' w op' answer' w₁ ∧ R ⟨w, op, answer, w₁⟩ ⟨w, op', answer', w₁⟩ ∧
        Alike env env' R Q (next answer) (next' answer')
  | running, running => True
  | _, _ => False

/-- Successes match by `Q`, and errors are the same. -/
def Matching (Q : α → β → Prop) : Except ε α → Except ε β → Prop
  | .ok a, .ok b => Q a b
  | .error e, .error e' => e = e'
  | _, _ => False

section Rules

variable {env env' : Environment S W} {R : Event S W → Event S W → Prop} {Q : α → β → Prop}
  {Q' : γ → δ → Prop}

/-- Every execution of the first program is matched by one of the second. -/
theorem alike_exec {p : Program S α} {q : Program S β} (h : Alike env env' R Q p q) {w w' : W}
    {trace : List (Event S W)} {result : Option α} (hexec : Exec env p w trace result w') :
    ∃ trace' result', Exec env' q w trace' result' w' ∧ List.Forall₂ R trace trace' ∧
      Option.Rel Q result result' := by
  induction hexec generalizing q with
  | finished a w =>
    cases q with
    | done b => exact ⟨[], some b, Exec.finished b w, List.Forall₂.nil, Option.Rel.some h⟩
    | call op next => exact h.elim
    | running => exact h.elim
  | killed p w => exact ⟨[], none, Exec.killed q w, List.Forall₂.nil, Option.Rel.none⟩
  | step henv _ ih =>
    cases q with
    | done b => exact h.elim
    | running => exact h.elim
    | call op next =>
      obtain ⟨answer', henv', hevent, hnext⟩ := h _ _ _ henv
      obtain ⟨trace', result', hrest, htraces, hresults⟩ := ih hnext
      exact ⟨_, result', Exec.step henv' hrest, List.Forall₂.cons hevent htraces, hresults⟩

theorem Alike.bind {p : Program S α} {q : Program S β} {f : α → Program S γ} {g : β → Program S δ}
    (h : Alike env env' R Q p q) (hfg : ∀ a b, Q a b → Alike env env' R Q' (f a) (g b)) :
    Alike env env' R Q' (p >>= f) (q >>= g) := by
  induction p generalizing q with
  | done a =>
    cases q with
    | done b => exact hfg a b h
    | call op next => exact h.elim
    | running => exact h.elim
  | call op next ih =>
    cases q with
    | done b => exact h.elim
    | running => exact h.elim
    | call op' next' =>
      intro w answer w₁ henv
      obtain ⟨answer', henv', hevent, hnext⟩ := h w answer w₁ henv
      exact ⟨answer', henv', hevent, ih answer hnext⟩
  | running =>
    cases q with
    | done b => exact h.elim
    | call op next => exact h.elim
    | running => trivial

/-- A program does like itself where the second environment allows all its events. -/
theorem alike_self {C : S.Op → Prop} {p : Program S α} (hp : p.Calls C)
    (hC : ∀ w op answer w₁, C op → env w op answer w₁ → env' w op answer w₁)
    (hR : ∀ e, R e e) : Alike env env' R Eq p p := by
  induction p with
  | done a => rfl
  | call op next ih =>
    intro w answer w₁ henv
    exact ⟨answer, hC w op answer w₁ hp.1 henv, hR _, ih answer (hp.2 answer)⟩
  | running => trivial

theorem Alike.andThen {x : Action S ε α} {y : Action S ε β} {f : α → Action S ε γ}
    {g : β → Action S ε δ} (h : Alike env env' R (Matching Q) x.run y.run)
    (hfg : ∀ a b, Q a b → Alike env env' R (Matching Q') (f a).run (g b).run) :
    Alike env env' R (Matching Q') (x >>= f).run (y >>= g).run := by
  rw [run_bind, run_bind]
  refine h.bind fun r r' hr => ?_
  cases r with
  | ok a =>
    cases r' with
    | ok b => exact hfg a b hr
    | error e => exact hr.elim
  | error e =>
    cases r' with
    | ok b => exact hr.elim
    | error e' => exact hr

theorem alike_attempt {x : Action S ε α} {y : Action S ε β}
    (h : Alike env env' R (Matching Q) x.run y.run) :
    Alike env env' R (Matching (Matching Q)) x.attempt.run y.attempt.run := h.bind fun _ _ h => h

theorem matching_eq {r : Except ε α} : Matching Eq r r := by
  cases r <;> rfl

theorem alike_action {C : S.Op → Prop} {x : Action S ε α} (hx : x.run.Calls C)
    (hC : ∀ w op answer w₁, C op → env w op answer w₁ → env' w op answer w₁)
    (hR : ∀ e, R e e) : Alike env env' R (Matching Eq) x.run x.run := by
  have hdone : ∀ r r' : Except ε α, r = r' →
      Alike env env' R (Matching Eq) (done r : Program S (Except ε α)) (done r') := by
    intro r r' hr
    rw [hr]
    exact matching_eq
  have h := (alike_self hx hC hR).bind hdone
  rwa [bind_done] at h

/-- Alike programs stay alike among the calls of a second signature. -/
theorem Alike.inl {env env' : Environment (S.sum T) W}
    {R : Event (S.sum T) W → Event (S.sum T) W → Prop} {p : Program S α} {q : Program S β}
    (h : Alike (fun w op answer w₁ => env w (.inl op) answer w₁)
      (fun w op answer w₁ => env' w (.inl op) answer w₁) (fun e e' => R e.inl e'.inl) Q p q) :
    Alike env env' R Q (p.inl : Program (S.sum T) α) q.inl := by
  induction p generalizing q with
  | done a => cases q <;> exact h
  | call op next ih =>
    cases q with
    | done b => exact h.elim
    | running => exact h.elim
    | call op' next' =>
      intro w answer w₁ henv
      obtain ⟨answer', henv', hevent, hnext⟩ := h w answer w₁ henv
      exact ⟨answer', henv', hevent, ih answer hnext⟩
  | running => cases q <;> exact h

theorem Alike.inr {env env' : Environment (S.sum T) W}
    {R : Event (S.sum T) W → Event (S.sum T) W → Prop} {p : Program T α} {q : Program T β}
    (h : Alike (fun w op answer w₁ => env w (.inr op) answer w₁)
      (fun w op answer w₁ => env' w (.inr op) answer w₁) (fun e e' => R e.inr e'.inr) Q p q) :
    Alike env env' R Q (p.inr : Program (S.sum T) α) q.inr := by
  induction p generalizing q with
  | done a => cases q <;> exact h
  | call op next ih =>
    cases q with
    | done b => exact h.elim
    | running => exact h.elim
    | call op' next' =>
      intro w answer w₁ henv
      obtain ⟨answer', henv', hevent, hnext⟩ := h w answer w₁ henv
      exact ⟨answer', henv', hevent, ih answer hnext⟩
  | running => cases q <;> exact h

end Rules

end MayflyAgent.Programs
