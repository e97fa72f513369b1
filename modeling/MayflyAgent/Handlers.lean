import MayflyAgent.Budgets
import MayflyAgent.Contracts

/-!
Programs that answer the calls of other programs, and programs that are put together from parts.
A handler answers a call by a program of its own and carries a state from one call to the next. A
program that makes some calls by itself and otherwise only runs one other program again and again
leaves a trace of such calls and of passes of that program.
-/
namespace MayflyAgent.Programs

open Program Budgets Contracts

variable {S T : Signature} {W V σ α β γ ε : Type}

/-- A program, among the calls of a first signature. -/
def Program.inr : Program T α → Program (S.sum T) α
  | done a => done a
  | call op next => call (S := S.sum T) (.inr op) fun answer => (next answer).inr
  | running => running

def Event.inr (e : Event T W) : Event (S.sum T) W :=
  ⟨e.before, .inr e.op, e.answer, e.after⟩

theorem Event.inr_injective :
    Function.Injective (Event.inr : Event T W → Event (S.sum T) W) := by
  rintro ⟨before, op, answer, after⟩ ⟨before', op', answer', after'⟩ h
  cases h
  rfl

theorem exec_inr {env : Environment (S.sum T) W} {p : Program T α} {w w' : W}
    {trace : List (Event (S.sum T) W)} {result : Option α}
    (h : Exec env (p.inr : Program (S.sum T) α) w trace result w') :
    ∃ inner : List (Event T W), trace = inner.map Event.inr ∧
      Exec (fun v op answer v' => env v (.inr op) answer v') p w inner result w' := by
  induction p generalizing w trace with
  | done a =>
    obtain ⟨rfl, rfl, hnone | hsome⟩ := exec_done h
    · exact ⟨[], rfl, hnone ▸ Exec.killed _ _⟩
    · exact ⟨[], rfl, hsome ▸ Exec.finished a _⟩
  | running =>
    cases h with
    | killed => exact ⟨[], rfl, Exec.killed _ _⟩
  | call op next ih =>
    rcases exec_call h with ⟨rfl, rfl, rfl⟩ | ⟨answer, w₁, rest, rfl, henv, hrest⟩
    · exact ⟨[], rfl, Exec.killed _ _⟩
    · obtain ⟨inner, rfl, hinner⟩ := ih answer hrest
      exact ⟨⟨w, op, answer, w₁⟩ :: inner, rfl, Exec.step henv hinner⟩

/-- An execution of a program is one among the calls of a second signature. -/
theorem Exec.inl {env : Environment (S.sum T) W} {p : Program S α} {w w' : W}
    {inner : List (Event S W)} {result : Option α}
    (h : Exec (fun v op answer v' => env v (.inl op) answer v') p w inner result w') :
    Exec env (p.inl : Program (S.sum T) α) w (inner.map Event.inl) result w' := by
  induction h with
  | finished a w => exact Exec.finished a w
  | killed p w => exact Exec.killed _ w
  | step henv _ ih => exact Exec.step (S := S.sum T) henv ih

theorem Exec.inr {env : Environment (S.sum T) W} {p : Program T α} {w w' : W}
    {inner : List (Event T W)} {result : Option α}
    (h : Exec (fun v op answer v' => env v (.inr op) answer v') p w inner result w') :
    Exec env (p.inr : Program (S.sum T) α) w (inner.map Event.inr) result w' := by
  induction h with
  | finished a w => exact Exec.finished a w
  | killed p w => exact Exec.killed _ w
  | step henv _ ih => exact Exec.step (S := S.sum T) henv ih

theorem inl_bind (p : Program S α) (f : α → Program S β) :
    ((p >>= f).inl : Program (S.sum T) β) = p.inl >>= fun a => (f a).inl := by
  induction p with
  | done a => rfl
  | call op next ih => exact congrArg (call (S := S.sum T) (.inl op)) (funext ih)
  | running => rfl

theorem calls_inr {P : T.Op → Prop} {Q : (S.sum T).Op → Prop} {p : Program T α} (hp : p.Calls P)
    (hPQ : ∀ op, P op → Q (.inr op)) : (p.inr : Program (S.sum T) α).Calls Q := by
  induction p with
  | done a => trivial
  | call op next ih => exact ⟨hPQ op hp.1, fun answer => ih answer (hp.2 answer)⟩
  | running => trivial

/-- The second part of a sequence may go by the results of the first. -/
theorem Calls.bind_yields {P : S.Op → Prop} {R : α → Prop} {p : Program S α}
    {f : α → Program S β} (hp : p.Calls P) (hyields : Yields R p)
    (hf : ∀ a, R a → (f a).Calls P) : (p >>= f).Calls P := by
  induction p with
  | done a => exact hf a hyields
  | call op next ih => exact ⟨hp.1, fun answer => ih answer (hp.2 answer) (hyields answer)⟩
  | running => trivial

/-- What a sequence may call, its first part may call. -/
theorem calls_of_bind {P : S.Op → Prop} {x : Action S ε α} {f : α → Action S ε β}
    (h : (x >>= f).run.Calls P) : x.run.Calls P := by
  rw [run_bind] at h
  generalize x.run = p at h
  induction p with
  | done a => trivial
  | call op next ih => exact ⟨h.1, fun answer => ih answer (h.2 answer)⟩
  | running => trivial

/-- An execution may be killed instead of finishing. -/
theorem Exec.stopped {env : Environment S W} {p : Program S α} {w w' : W}
    {trace : List (Event S W)} {result : Option α} (h : Exec env p w trace result w') :
    Exec env p w trace none w' := by
  induction h with
  | finished a w => exact Exec.killed _ w
  | killed p w => exact Exec.killed p w
  | step henv _ ih => exact Exec.step henv ih

/-- A sequence may be killed in its first part. -/
theorem Exec.killed_bind {env : Environment S W} {p : Program S α} {f : α → Program S β}
    {w w' : W} {trace : List (Event S W)} (h : Exec env p w trace none w') :
    Exec env (p >>= f) w trace none w' := by
  induction p generalizing w trace with
  | done a =>
    obtain ⟨rfl, rfl, _⟩ := exec_done h
    exact Exec.killed _ _
  | call op next ih =>
    rcases exec_call h with ⟨rfl, _, rfl⟩ | ⟨answer, w₁, rest, rfl, henv, hrest⟩
    · exact Exec.killed _ _
    · exact Exec.step henv (ih answer hrest)
  | running =>
    cases h with
    | killed => exact Exec.killed _ _

theorem Exec.killed_action {env : Environment S W} {x : Action S ε α} {f : α → Action S ε β}
    {w w' : W} {trace : List (Event S W)} (h : Exec env x.run w trace none w') :
    Exec env (x >>= f).run w trace none w' := by
  rw [run_bind]
  exact h.killed_bind

/-- What playing a program comes to, an execution comes to. -/
theorem exec_played {env : Environment S W} {policy : W → (op : S.Op) → Option (S.Answer op × W)}
    (hpolicy : ∀ w op answer w₁, policy w op = some (answer, w₁) → env w op answer w₁)
    {p : Program S α} {w : W} {r : Option α × W} (h : outcome policy p w = r) :
    Exec env p w (play policy p w).1 r.1 r.2 := by
  rw [← h]
  exact exec_play hpolicy p w

/-- What is played may go in front of an execution. -/
theorem exec_played_front {env : Environment S W}
    {policy : W → (op : S.Op) → Option (S.Answer op × W)}
    (hpolicy : ∀ w op answer w₁, policy w op = some (answer, w₁) → env w op answer w₁)
    {x : Action S ε α} {f : α → Action S ε β} {a : α} {w w₁ w' : W} {trace : List (Event S W)}
    {result : Option (Except ε β)} (hx : outcome policy x.run w = (some (.ok a), w₁))
    (hf : ∃ front, Exec env (f a).run w₁ (front ++ trace) result w') :
    ∃ front, Exec env (x >>= f).run w (front ++ trace) result w' := by
  obtain ⟨front, hf⟩ := hf
  refine ⟨(play policy x.run w).1 ++ front, ?_⟩
  rw [List.append_assoc]
  exact (exec_played hpolicy hx).action_bind hf

def Event.map (f : W → V) (e : Event S W) : Event S V := ⟨f e.before, e.op, e.answer, f e.after⟩

/-- What a part of the world goes through is an execution, if every move of the world is one of
that part. -/
theorem Exec.map {env : Environment S W} {env' : Environment S V} {f : W → V}
    (hmove : ∀ w op answer w', env w op answer w' → env' (f w) op answer (f w'))
    {p : Program S α} {w w' : W} {trace : List (Event S W)} {result : Option α}
    (h : Exec env p w trace result w') :
    Exec env' p (f w) (trace.map (Event.map f)) result (f w') := by
  induction h with
  | finished a w => exact Exec.finished a _
  | killed p w => exact Exec.killed p _
  | step henv _ ih => exact Exec.step (hmove _ _ _ _ henv) ih

/-- A handler answers a call by a program of its own. -/
abbrev Handler (S T : Signature) (σ : Type) := σ → (op : S.Op) → Program T (S.Answer op × σ)

/-- The program with its calls answered by the handler. -/
def handle (h : Handler S T σ) : Program S α → σ → Program T (α × σ)
  | done a, s => done (a, s)
  | call op next, s => h s op >>= fun r => handle h (next r.1) r.2
  | running, _ => running

theorem handle_bind (h : Handler S T σ) (p : Program S α) (f : α → Program S β) (s : σ) :
    handle h (p >>= f) s = (handle h p s >>= fun r => handle h (f r.1) r.2) := by
  induction p generalizing s with
  | done a => rfl
  | call op next ih =>
    simp only [call_bind, handle, bind_assoc]
    exact congrArg _ (funext fun r => ih r.1 r.2)
  | running => rfl

/-- A handled program calls what its calls are answered by, and keeps of the state what every
answer keeps. -/
theorem calls_handle {h : Handler S T σ} {I : σ → Prop} {P : S.Op → Prop} {Q : T.Op → Prop}
    (hh : ∀ s op, I s → P op → (h s op).Calls Q ∧ Yields (fun r => I r.2) (h s op))
    {p : Program S α} (hp : p.Calls P) {s : σ} (hs : I s) :
    (handle h p s).Calls Q ∧ Yields (fun r => I r.2) (handle h p s) := by
  induction p generalizing s with
  | done a => exact ⟨trivial, hs⟩
  | call op next ih =>
    obtain ⟨hcalls, hyields⟩ := hh s op hs hp.1
    exact ⟨Calls.bind_yields hcalls hyields fun r hr => (ih r.1 (hp.2 r.1) hr).1,
      hyields.bind fun r hr => (ih r.1 (hp.2 r.1) hr).2⟩
  | running => exact ⟨trivial, trivial⟩

/-- The result of a handled action, with the state behind it. -/
def Leaves {W : Type} (F : ε → Condition T W) (Q : α → σ → Condition T W) :
    Except ε α × σ → Condition T W
  | (.ok a, s) => Q a s
  | (.error e, _) => F e

/-- Contracts of handled actions are put together as those of actions. -/
theorem meets_handle_bind {h : Handler S T σ} {env : Environment T W}
    {E : List (Event T W) → Event T W → Prop} {P : Condition T W} {F : ε → Condition T W}
    {Q : α → σ → Condition T W} {R : β → σ → Condition T W} {x : Action S ε α}
    {f : α → Action S ε β} {s : σ} (hx : Meets env E P (handle h x.run s) (Leaves F Q))
    (hf : ∀ a s', Meets env E (Q a s') (handle h (f a).run s') (Leaves F R)) :
    Meets env E P (handle h (x >>= f).run s) (Leaves F R) := by
  rw [run_bind, handle_bind]
  refine hx.bind fun r => ?_
  obtain ⟨r, s'⟩ := r
  cases r with
  | ok a => exact hf a s'
  | error e => exact meets_done fun _ _ h => h

/-- A handled program keeps what every answer keeps. -/
theorem meets_handle {h : Handler S T σ} {env : Environment T W}
    {E : List (Event T W) → Event T W → Prop} {I : σ → Condition T W}
    (hh : ∀ s op, Meets env E (I s) (h s op) fun r => I r.2) (p : Program S α) (s : σ) :
    Meets env E (I s) (handle h p s) fun r => I r.2 := by
  induction p generalizing s with
  | done a => exact meets_done fun _ _ h => h
  | call op next ih => exact (hh s op).bind fun r => ih r.1 r.2
  | running => exact meets_running

/-- What no answers whatever make a program call, it does not call. -/
theorem calls_of_meets (hanswer : ∀ op, Nonempty (S.Answer op)) {P : S.Op → Prop} {p : Program S α}
    {Q : α → Condition S Unit}
    (h : Meets (fun _ _ _ _ => True) (fun _ e => P e.op) (fun _ _ => True) p Q) : p.Calls P := by
  have hexec : ∀ {trace : List (Event S Unit)} {result : Option α},
      Exec (fun _ _ _ _ => True) p () trace result () → ∀ e ∈ trace, P e.op :=
    fun hexec => (h [] _ _ _ _ trivial hexec).1.forall_mem fun _ _ he => he
  clear h
  induction p with
  | done a => trivial
  | running => trivial
  | call op next ih =>
    obtain ⟨answer⟩ := hanswer op
    refine ⟨hexec (Exec.step trivial (Exec.killed (next answer) ())) _ (List.mem_cons_self ..),
      fun answer => ih answer fun hrest e he => ?_⟩
    exact hexec (Exec.step trivial hrest) e (List.mem_cons_of_mem _ he)

/-- A contract that does not go by what was before holds among the calls of a second signature. -/
theorem meets_inl {env : Environment (S.sum T) W} {E : Event (S.sum T) W → Prop} {P : W → Prop}
    {p : Program S α} {Q : α → W → Prop}
    (h : Meets (fun v op answer v' => env v (.inl op) answer v') (fun _ e => E e.inl) (fun _ => P) p
      fun a _ => Q a) :
    Meets env (fun _ => E) (fun _ => P) (p.inl : Program (S.sum T) α) fun a _ => Q a := by
  intro past w trace result w' hP hexec
  obtain ⟨inner, rfl, hinner⟩ := exec_inl hexec
  obtain ⟨hevents, hend⟩ := h [] w inner result w' hP hinner
  refine ⟨throughout_iff.mpr fun first e rest htrace => ?_, hend⟩
  have hmem : e ∈ inner.map Event.inl := htrace ▸ List.mem_append_right _ (List.mem_cons_self ..)
  obtain ⟨e, he, rfl⟩ := List.mem_map.mp hmem
  exact hevents.forall_mem (fun _ _ h => h) e he

/-- The program makes calls that satisfy `C` and otherwise runs `q` from its start to its end. -/
inductive Assembled (C : S.Op → Prop) (q : Program S γ) : Program S α → Prop
  | done (a : α) : Assembled C q (done a)
  | running : Assembled C q running
  | call {op : S.Op} {next : S.Answer op → Program S α} (hop : C op)
      (hnext : ∀ answer, Assembled C q (next answer)) : Assembled C q (call op next)
  | part {f : γ → Program S α} (hf : ∀ c, Assembled C q (f c)) : Assembled C q (q >>= f)

section Assembling

variable {C : S.Op → Prop} {q : Program S γ}

theorem assembled_of_calls {p : Program S α} (h : p.Calls C) : Assembled C q p := by
  induction p with
  | done a => exact Assembled.done a
  | call op next ih => exact Assembled.call h.1 fun answer => ih answer (h.2 answer)
  | running => exact Assembled.running

theorem assembled_part : Assembled C q q := by
  have h : Assembled C q (q >>= done) := Assembled.part Assembled.done
  rwa [bind_done] at h

theorem Assembled.bind {p : Program S α} {f : α → Program S β} (hp : Assembled C q p)
    (hf : ∀ a, Assembled C q (f a)) : Assembled C q (p >>= f) := by
  induction hp with
  | done a => exact hf a
  | running => exact Assembled.running
  | call hop _ ih => exact Assembled.call hop ih
  | part _ ih =>
    rw [bind_assoc]
    exact Assembled.part ih

theorem Assembled.andThen {x : Action S ε α} {f : α → Action S ε β} (hx : Assembled C q x.run)
    (hf : ∀ a, Assembled C q (f a).run) : Assembled C q (x >>= f).run := by
  rw [run_bind]
  refine hx.bind fun r => ?_
  cases r with
  | ok a => exact hf a
  | error e => exact Assembled.done _

theorem Assembled.attempt {x : Action S ε α} (hx : Assembled C q x.run) :
    Assembled C q x.attempt.run := hx.bind fun _ => Assembled.done _

/-- Nothing changes among the calls of a second signature. -/
theorem Assembled.inl {C' : (S.sum T).Op → Prop} {p : Program S α} (hp : Assembled C q p)
    (hC : ∀ op, C op → C' (.inl op)) : Assembled C' (q.inl : Program (S.sum T) γ) p.inl := by
  induction hp with
  | done a => exact Assembled.done a
  | running => exact Assembled.running
  | call hop _ ih => exact Assembled.call (hC _ hop) ih
  | part _ ih =>
    rw [inl_bind]
    exact Assembled.part ih

/-- A handled program is put together from what its calls are. -/
theorem Assembled.handle {h : Handler T S σ} (hh : ∀ s op, Assembled C q (h s op))
    (p : Program T α) (s : σ) : Assembled C q (handle h p s) := by
  induction p generalizing s with
  | done a => exact Assembled.done _
  | call op next ih => exact (hh s op).bind fun r => ih r.1 r.2
  | running => exact Assembled.running

end Assembling

/-- A trace of calls that satisfy `C` and of passes of `q`, each of which may be killed. -/
inductive Parts (env : Environment S W) (C : S.Op → Prop) (q : Program S γ) :
    W → List (Event S W) → W → Prop
  | nil (w : W) : Parts env C q w [] w
  | call {w w₁ w₂ : W} {op : S.Op} {answer : S.Answer op} {trace : List (Event S W)} (hop : C op)
      (henv : env w op answer w₁) (hrest : Parts env C q w₁ trace w₂) :
      Parts env C q w (⟨w, op, answer, w₁⟩ :: trace) w₂
  | part {w w₁ w₂ : W} {first second : List (Event S W)} {result : Option γ}
      (hexec : Exec env q w first result w₁) (hrest : Parts env C q w₁ second w₂) :
      Parts env C q w (first ++ second) w₂

/-- Every execution of such a program leaves such a trace. -/
theorem exec_parts {env : Environment S W} {C : S.Op → Prop} {q : Program S γ}
    {p : Program S α} (hp : Assembled C q p) {w w' : W} {trace : List (Event S W)}
    {result : Option α} (h : Exec env p w trace result w') : Parts env C q w trace w' := by
  induction hp generalizing w trace with
  | done a =>
    obtain ⟨rfl, rfl, _⟩ := exec_done h
    exact Parts.nil _
  | running =>
    cases h with
    | killed => exact Parts.nil _
  | call hop _ ih =>
    rcases exec_call h with ⟨rfl, rfl, rfl⟩ | ⟨answer, w₁, rest, rfl, henv, hrest⟩
    · exact Parts.nil _
    · exact Parts.call hop henv (ih answer hrest)
  | part _ ih =>
    rcases exec_bind h with ⟨rfl, hkill⟩ | ⟨c, first, second, w₁, rfl, hfirst, hsecond⟩
    · simpa using Parts.part hkill (Parts.nil w')
    · exact Parts.part hfirst (ih c hsecond)

end MayflyAgent.Programs
