import Mathlib.Data.List.Basic
import Mathlib.Logic.Basic

/-!
Effectful programs as trees of calls and answers, and their interrupted runs.
A program makes one call at a time and goes on with whatever the environment
answers. The environment is a relation on worlds, so an answer may be chosen
freely among those the relation allows. An execution may be killed before any
call; its trace keeps the world on both sides of every call that was answered.
Nothing in this module depends on what the calls are.
-/
namespace MayflyAgent.Programs

/-- The calls a program can make, and the answers each of them can receive. -/
structure Signature where
  Op : Type
  Answer : Op → Type

/-- `running` ends an unrolled loop: the program is still busy there and the
only thing that can be observed of it from then on is its being killed. -/
inductive Program (S : Signature) (α : Type) : Type
  | done (a : α)
  | call (op : S.Op) (next : S.Answer op → Program S α)
  | running

variable {S : Signature} {W V α β ε : Type}

namespace Program

def bind : Program S α → (α → Program S β) → Program S β
  | done a, f => f a
  | call op next, f => call op fun answer => (next answer).bind f
  | running, _ => running

instance : Monad (Program S) where
  pure := done
  bind := bind

theorem done_bind (a : α) (f : α → Program S β) : (done a >>= f) = f a := rfl

theorem call_bind (op : S.Op) (next : S.Answer op → Program S α) (f : α → Program S β) :
    (call op next >>= f) = call op fun answer => next answer >>= f := rfl

theorem bind_done (p : Program S α) : (p >>= done) = p := by
  induction p with
  | done a => rfl
  | call op next ih =>
    rw [call_bind]
    exact congrArg (call op) (funext ih)
  | running => rfl

theorem bind_assoc {γ : Type} (p : Program S α) (f : α → Program S β) (g : β → Program S γ) :
    (p >>= f >>= g) = (p >>= fun a => f a >>= g) := by
  induction p with
  | done a => rfl
  | call op next ih =>
    simp only [call_bind]
    exact congrArg (call op) (funext ih)
  | running => rfl

instance : LawfulMonad (Program S) :=
  LawfulMonad.mk' _ bind_done done_bind bind_assoc

/-- A single call, whose answer is the result. -/
def perform (op : S.Op) : Program S (S.Answer op) := call op done

/-- Every call the program can ever make satisfies `P`, whatever is answered. -/
def Calls (P : S.Op → Prop) : Program S α → Prop
  | done _ => True
  | call op next => P op ∧ ∀ answer, (next answer).Calls P
  | running => True

theorem Calls.bind {P : S.Op → Prop} {p : Program S α} {f : α → Program S β}
    (hp : p.Calls P) (hf : ∀ a, (f a).Calls P) : (p >>= f).Calls P := by
  induction p with
  | done a => exact hf a
  | call op next ih => exact ⟨hp.1, fun answer => ih answer (hp.2 answer)⟩
  | running => trivial

theorem Calls.mono {P Q : S.Op → Prop} {p : Program S α} (hp : p.Calls P)
    (hPQ : ∀ op, P op → Q op) : p.Calls Q := by
  induction p with
  | done a => trivial
  | call op next ih => exact ⟨hPQ op hp.1, fun answer => ih answer (hp.2 answer)⟩
  | running => trivial

theorem calls_true (p : Program S α) : p.Calls fun _ => True := by
  induction p with
  | done a => trivial
  | call op next ih => exact ⟨trivial, ih⟩
  | running => trivial

end Program

open Program

/-- One answered call, with the world before and after it. -/
structure Event (S : Signature) (W : Type) where
  before : W
  op : S.Op
  answer : S.Answer op
  after : W

/-- What a call made in a world may be answered, and the world this leaves. -/
abbrev Environment (S : Signature) (W : Type) := W → (op : S.Op) → S.Answer op → W → Prop

/-- Executions that either finish with a result or are killed before some call. -/
inductive Exec (env : Environment S W) :
    Program S α → W → List (Event S W) → Option α → W → Prop
  | finished (a : α) (w : W) : Exec env (done a) w [] (some a) w
  | killed (p : Program S α) (w : W) : Exec env p w [] none w
  | step {op : S.Op} {next : S.Answer op → Program S α} {answer : S.Answer op}
      {w w₁ w₂ : W} {trace : List (Event S W)} {result : Option α}
      (henv : env w op answer w₁) (hrest : Exec env (next answer) w₁ trace result w₂) :
      Exec env (call op next) w (⟨w, op, answer, w₁⟩ :: trace) result w₂

section Executions

variable {env : Environment S W} {trace : List (Event S W)} {w w' : W}

theorem exec_done {a : α} {result : Option α} (h : Exec env (done a) w trace result w') :
    trace = [] ∧ w' = w ∧ (result = none ∨ result = some a) := by
  cases h with
  | finished => exact ⟨rfl, rfl, Or.inr rfl⟩
  | killed => exact ⟨rfl, rfl, Or.inl rfl⟩

theorem exec_call {op : S.Op} {next : S.Answer op → Program S α} {result : Option α}
    (h : Exec env (call op next) w trace result w') :
    (trace = [] ∧ result = none ∧ w' = w) ∨
      ∃ answer w₁ rest, trace = ⟨w, op, answer, w₁⟩ :: rest ∧ env w op answer w₁ ∧
        Exec env (next answer) w₁ rest result w' := by
  cases h with
  | killed => exact Or.inl ⟨rfl, rfl, rfl⟩
  | step henv hrest => exact Or.inr ⟨_, _, _, rfl, henv, hrest⟩

/-- An execution of a sequence is killed inside the first part, or splits. -/
theorem exec_bind {p : Program S α} {f : α → Program S β} {result : Option β}
    (h : Exec env (p >>= f) w trace result w') :
    (result = none ∧ Exec env p w trace none w') ∨
      ∃ a first second w₁, trace = first ++ second ∧
        Exec env p w first (some a) w₁ ∧ Exec env (f a) w₁ second result w' := by
  induction p generalizing w trace with
  | done a => exact Or.inr ⟨a, [], trace, w, rfl, Exec.finished a w, h⟩
  | running =>
    cases h with
    | killed => exact Or.inl ⟨rfl, Exec.killed _ _⟩
  | call op next ih =>
    rw [call_bind] at h
    rcases exec_call h with ⟨rfl, rfl, rfl⟩ | ⟨answer, w₁, rest, rfl, henv, hrest⟩
    · exact Or.inl ⟨rfl, Exec.killed _ _⟩
    · rcases ih answer hrest with ⟨rfl, hp⟩ | ⟨a, first, second, w₂, rfl, hp, hf⟩
      · exact Or.inl ⟨rfl, Exec.step henv hp⟩
      · exact Or.inr ⟨a, _ :: first, second, w₂, rfl, Exec.step henv hp, hf⟩

theorem Exec.bind {p : Program S α} {f : α → Program S β} {a : α} {result : Option β}
    {first second : List (Event S W)} {w₁ : W}
    (hp : Exec env p w first (some a) w₁) (hf : Exec env (f a) w₁ second result w') :
    Exec env (p >>= f) w (first ++ second) result w' := by
  induction p generalizing w first with
  | done b =>
    cases hp with
    | finished => exact hf
  | call op next ih =>
    cases hp with
    | step henv hrest => exact Exec.step henv (ih _ hrest)
  | running => cases hp

theorem Exec.mono {env' : Environment S W} {p : Program S α} {result : Option α}
    (h : Exec env p w trace result w') (henv : ∀ w op answer w₁, env w op answer w₁ →
      env' w op answer w₁) : Exec env' p w trace result w' := by
  induction h with
  | finished a w => exact Exec.finished a w
  | killed p w => exact Exec.killed p w
  | step hstep _ ih => exact Exec.step (henv _ _ _ _ hstep) ih

/-- An execution is one of every environment that allows its events. -/
theorem Exec.of_events {env' : Environment S W} {p : Program S α} {result : Option α}
    (h : Exec env p w trace result w')
    (hevents : ∀ e ∈ trace, env' e.before e.op e.answer e.after) :
    Exec env' p w trace result w' := by
  induction h with
  | finished a w => exact Exec.finished a w
  | killed p w => exact Exec.killed p w
  | step _ _ ih =>
    obtain ⟨hstep, hrest⟩ := List.forall_mem_cons.mp hevents
    exact Exec.step hstep (ih hrest)

/-- Every event of a trace is a move the environment allows. -/
theorem Exec.event_env {p : Program S α} {result : Option α}
    (h : Exec env p w trace result w') :
    ∀ e ∈ trace, env e.before e.op e.answer e.after := by
  induction h with
  | finished a w => simp
  | killed p w => simp
  | step henv _ ih =>
    intro e he
    rcases List.mem_cons.mp he with rfl | he
    · exact henv
    · exact ih e he

theorem Exec.tail {p : Program S α} {result : Option α} {e : Event S W}
    (h : Exec env p w (e :: trace) result w') :
    ∃ q : Program S α, Exec env q e.after trace result w' := by
  cases h with
  | step _ hrest => exact ⟨_, hrest⟩

/-- What every event keeps holds around each event and at the end. -/
theorem Exec.invariant {I : W → Prop} {p : Program S α} {result : Option α}
    (h : Exec env p w trace result w') (hevent : ∀ e ∈ trace, I e.before → I e.after)
    (hw : I w) : I w' ∧ ∀ e ∈ trace, I e.before ∧ I e.after := by
  induction h with
  | finished a w => exact ⟨hw, by simp⟩
  | killed p w => exact ⟨hw, by simp⟩
  | step _ _ ih =>
    have hhead := hevent _ (List.mem_cons_self ..) hw
    obtain ⟨hend, hrest⟩ := ih (fun e he => hevent e (List.mem_cons_of_mem _ he)) hhead
    refine ⟨hend, fun e he => ?_⟩
    rcases List.mem_cons.mp he with rfl | he
    · exact ⟨hw, hhead⟩
    · exact hrest e he

theorem Exec.event_calls {P : S.Op → Prop} {p : Program S α} {result : Option α}
    (h : Exec env p w trace result w') (hp : p.Calls P) : ∀ e ∈ trace, P e.op := by
  induction h with
  | finished a w => simp
  | killed p w => simp
  | step henv _ ih =>
    intro e he
    rcases List.mem_cons.mp he with rfl | he
    · exact hp.1
    · exact ih (hp.2 _) e he

/-- A reflexive and transitive relation that holds across every event holds
between the ends of the execution. -/
theorem Exec.relates {R : W → W → Prop} {p : Program S α} {result : Option α}
    (h : Exec env p w trace result w') (hrefl : ∀ v, R v v)
    (htrans : ∀ u v x, R u v → R v x → R u x)
    (hevent : ∀ e ∈ trace, R e.before e.after) : R w w' := by
  induction h with
  | finished a w => exact hrefl w
  | killed p w => exact hrefl w
  | step henv _ ih =>
    have hhead := hevent _ (List.mem_cons_self ..)
    exact htrans _ _ _ hhead (ih fun e he => hevent e (List.mem_cons_of_mem _ he))

/-- Such a relation also leads from the start to every event, and on to the end. -/
theorem Exec.relates_around {R : W → W → Prop} {p : Program S α} {result : Option α}
    (h : Exec env p w trace result w') (hrefl : ∀ v, R v v)
    (htrans : ∀ u v x, R u v → R v x → R u x)
    (hevent : ∀ e ∈ trace, R e.before e.after) :
    ∀ e ∈ trace, R w e.before ∧ R e.after w' := by
  induction h with
  | finished a w => simp
  | killed p w => simp
  | step henv hrest ih =>
    have htail := fun e he => hevent e (List.mem_cons_of_mem _ he)
    have hhead := hevent _ (List.mem_cons_self ..)
    intro e he
    rcases List.mem_cons.mp he with rfl | he
    · exact ⟨hrefl _, hrest.relates hrefl htrans htail⟩
    · obtain ⟨hbefore, hafter⟩ := ih htail e he
      exact ⟨htrans _ _ _ hhead hbefore, hafter⟩

/-- The worlds an execution goes through are ordered by such a relation. -/
theorem Exec.ordered {R : W → W → Prop} {p : Program S α} {result : Option α}
    (h : Exec env p w trace result w') (hrefl : ∀ v, R v v)
    (htrans : ∀ u v x, R u v → R v x → R u x)
    (hevent : ∀ e ∈ trace, R e.before e.after) :
    (w :: trace.map Event.after).Pairwise R ∧ ∀ v ∈ w :: trace.map Event.after, R v w' := by
  induction h with
  | finished a w => simp [hrefl]
  | killed p w => simp [hrefl]
  | @step op next answer w w₁ w₂ trace result henv hrest ih =>
    have htail := fun e he => hevent e (List.mem_cons_of_mem _ he)
    have hhead : R w w₁ := hevent ⟨w, op, answer, w₁⟩ (List.mem_cons_self ..)
    obtain ⟨hpairwise, hend⟩ := ih htail
    have hfirst : ∀ v ∈ w₁ :: trace.map Event.after, R w v := by
      intro v hv
      rcases List.mem_cons.mp hv with rfl | hv
      · exact hhead
      · exact htrans _ _ _ hhead (List.rel_of_pairwise_cons hpairwise hv)
    refine ⟨List.Pairwise.cons hfirst hpairwise, fun v hv => ?_⟩
    rcases List.mem_cons.mp hv with rfl | hv
    · exact htrans _ _ _ hhead (hrest.relates hrefl htrans htail)
    · exact hend v hv

/-- A component of the world that no event changes is the same at the end. -/
theorem Exec.frame (f : W → V) {p : Program S α} {result : Option α}
    (h : Exec env p w trace result w') (hevent : ∀ e ∈ trace, f e.after = f e.before) :
    f w' = f w := by
  refine h.relates (R := fun u v => f v = f u) (fun _ => rfl) ?_ hevent
  intro u v x huv hvx
  exact hvx.trans huv

/-- Where an event stands in two traces in a row, it stands in one of them. -/
theorem split_append {first rest head tail : List α} {e : α}
    (h : first ++ e :: rest = head ++ tail) :
    (∃ mid, head = first ++ e :: mid ∧ rest = mid ++ tail) ∨
      ∃ mid, first = head ++ mid ∧ tail = mid ++ e :: rest := by
  rcases List.append_eq_append_iff.mp h with ⟨mid, rfl, hmid⟩ | ⟨mid, rfl, rfl⟩
  · cases mid with
    | nil => exact Or.inr ⟨[], by simp, hmid.symm⟩
    | cons x mid =>
      obtain ⟨rfl, rfl⟩ := List.cons.inj hmid
      exact Or.inl ⟨mid, rfl, rfl⟩
  · exact Or.inr ⟨mid, rfl, rfl⟩

/-- Cutting a trace anywhere leaves an execution killed at that point, and the
worlds around the cut meet. -/
theorem Exec.cut {p : Program S α} {result : Option α} {first second : List (Event S W)}
    (h : Exec env p w (first ++ second) result w') :
    ∃ w₁, Exec env p w first none w₁ ∧
      ∃ q : Program S α, Exec env q w₁ second result w' := by
  induction first generalizing p w with
  | nil => exact ⟨w, Exec.killed p w, p, h⟩
  | cons e rest ih =>
    cases h with
    | step henv hrest =>
      obtain ⟨w₁, hfirst, q, hq⟩ := ih hrest
      exact ⟨w₁, Exec.step henv hfirst, q, hq⟩

/-- The world before an event is where the events in front of it lead. -/
theorem Exec.cut_event {p : Program S α} {result : Option α} {e : Event S W}
    {first second : List (Event S W)} (h : Exec env p w (first ++ e :: second) result w') :
    Exec env p w first none e.before ∧
      ∃ q : Program S α, Exec env q e.after second result w' := by
  obtain ⟨w₁, hfirst, q, hq⟩ := h.cut
  cases hq with
  | step henv hrest => exact ⟨hfirst, _, hrest⟩

/-- Every event of every execution of the program has the property. -/
def Each (env : Environment S W) (p : Program S α) (P : Event S W → Prop) : Prop :=
  ∀ w trace result w', Exec env p w trace result w' → ∀ e ∈ trace, P e

theorem Each.bind {P : Event S W → Prop} {p : Program S α} {f : α → Program S β}
    (hp : Each env p P) (hf : ∀ a, Each env (f a) P) : Each env (p >>= f) P := by
  intro w trace result w' h e he
  rcases exec_bind h with ⟨_, hfirst⟩ | ⟨a, first, second, w₁, rfl, hfirst, hsecond⟩
  · exact hp _ _ _ _ hfirst e he
  · rcases List.mem_append.mp he with he | he
    · exact hp _ _ _ _ hfirst e he
    · exact hf a _ _ _ _ hsecond e he

theorem each_of_calls {Q : S.Op → Prop} {P : Event S W → Prop} {p : Program S α}
    (hp : p.Calls Q) (hQ : ∀ e : Event S W, Q e.op → P e) : Each env p P :=
  fun _ _ _ _ h e he => hQ e (h.event_calls hp e he)

end Executions

/-! Programs that can fail stop at their first error. -/

abbrev Action (S : Signature) (ε α : Type) := ExceptT ε (Program S) α

namespace Action

def ofExcept (r : Except ε α) : Action S ε α := ExceptT.mk (done r)

def perform (op : S.Op) : Action S ε (S.Answer op) := ExceptT.lift (Program.perform op)

/-- Hand over the outcome of an action instead of failing with it. -/
def attempt (x : Action S ε α) : Action S ε (Except ε α) :=
  ExceptT.mk (x.run >>= fun r => done (.ok r))

end Action

theorem ofExcept_ok_bind (a : α) (f : α → Action S ε β) :
    (Action.ofExcept (.ok a) >>= f) = f a := rfl

theorem ofExcept_error_bind (e : ε) (f : α → Action S ε β) :
    (Action.ofExcept (.error e) >>= f) = throw e := rfl

theorem run_bind (x : Action S ε α) (f : α → Action S ε β) :
    ExceptT.run (x >>= f) = (x.run >>= fun r =>
      match r with
      | .ok a => (f a).run
      | .error e => pure (.error e)) := by
  rw [ExceptT.run_bind]
  congr
  funext r
  cases r <;> rfl

theorem calls_bind {P : S.Op → Prop} {x : Action S ε α} {f : α → Action S ε β}
    (hx : x.run.Calls P) (hf : ∀ a, (f a).run.Calls P) : (x >>= f).run.Calls P := by
  rw [run_bind]
  apply Calls.bind hx
  intro r
  cases r with
  | ok a => exact hf a
  | error e => trivial

theorem calls_perform {P : S.Op → Prop} {op : S.Op} (h : P op) :
    (Action.perform op : Action S ε (S.Answer op)).run.Calls P := ⟨h, fun _ => trivial⟩

theorem calls_attempt {P : S.Op → Prop} {x : Action S ε α} (hx : x.run.Calls P) :
    x.attempt.run.Calls P := Calls.bind hx fun _ => trivial

theorem Each.action_bind {env : Environment S W} {P : Event S W → Prop} {x : Action S ε α}
    {f : α → Action S ε β} (hx : Each env x.run P) (hf : ∀ a, Each env (f a).run P) :
    Each env (x >>= f).run P := by
  rw [run_bind]
  apply Each.bind hx
  intro r
  cases r with
  | ok a => exact hf a
  | error e => exact each_of_calls (Q := fun _ => False) trivial fun _ h => h.elim

section Actions

variable {env : Environment S W} {trace : List (Event S W)} {w w' : W}

/-- A sequence of fallible actions is killed in the first, fails in the first,
or goes on with the second. -/
theorem exec_action_bind {x : Action S ε α} {f : α → Action S ε β}
    {result : Option (Except ε β)} (h : Exec env (x >>= f).run w trace result w') :
    (result = none ∧ Exec env x.run w trace none w') ∨
    (∃ e, (result = none ∨ result = some (.error e)) ∧
      Exec env x.run w trace (some (.error e)) w') ∨
    ∃ a first second w₁, trace = first ++ second ∧
      Exec env x.run w first (some (.ok a)) w₁ ∧
      Exec env (f a).run w₁ second result w' := by
  rw [run_bind] at h
  rcases exec_bind h with hkill | ⟨r, first, second, w₁, rfl, hx, hf⟩
  · exact Or.inl hkill
  · cases r with
    | ok a => exact Or.inr (Or.inr ⟨a, first, second, w₁, rfl, hx, hf⟩)
    | error e =>
      obtain ⟨rfl, rfl, hresult⟩ := exec_done hf
      exact Or.inr (Or.inl ⟨e, hresult, by simpa using hx⟩)

theorem Exec.action_bind {x : Action S ε α} {f : α → Action S ε β} {a : α}
    {result : Option (Except ε β)} {first second : List (Event S W)} {w₁ : W}
    (hx : Exec env x.run w first (some (.ok a)) w₁)
    (hf : Exec env (f a).run w₁ second result w') :
    Exec env (x >>= f).run w (first ++ second) result w' := by
  rw [run_bind]
  exact hx.bind hf

/-- A sequence that succeeded went through both of its parts. -/
theorem exec_action_bind_ok {x : Action S ε α} {f : α → Action S ε β} {b : β}
    (h : Exec env (x >>= f).run w trace (some (.ok b)) w') :
    ∃ a first second w₁, trace = first ++ second ∧
      Exec env x.run w first (some (.ok a)) w₁ ∧
      Exec env (f a).run w₁ second (some (.ok b)) w' := by
  rcases exec_action_bind h with ⟨hnone, _⟩ | ⟨_, hnone | hsome, _⟩ | hsplit
  · cases hnone
  · cases hnone
  · cases hsome
  · exact hsplit

/-- A sequence that failed did so in its first part or in its second. -/
theorem exec_action_bind_error {x : Action S ε α} {f : α → Action S ε β} {e : ε}
    (h : Exec env (x >>= f).run w trace (some (.error e)) w') :
    Exec env x.run w trace (some (.error e)) w' ∨
      ∃ a first second w₁, trace = first ++ second ∧
        Exec env x.run w first (some (.ok a)) w₁ ∧
        Exec env (f a).run w₁ second (some (.error e)) w' := by
  rcases exec_action_bind h with ⟨hnone, _⟩ | ⟨e', hnone | hsome, hx⟩ | hsplit
  · cases hnone
  · cases hnone
  · cases hsome
    exact Or.inl hx
  · exact Or.inr hsplit

theorem exec_ofExcept {r : Except ε α} {result : Option (Except ε α)}
    (h : Exec env (Action.ofExcept r).run w trace result w') :
    trace = [] ∧ w' = w ∧ (result = none ∨ result = some r) := exec_done h

theorem exec_pure {a : α} {result : Option (Except ε α)}
    (h : Exec env (pure a : Action S ε α).run w trace result w') :
    trace = [] ∧ w' = w ∧ (result = none ∨ result = some (.ok a)) := exec_done h

theorem exec_throw {e : ε} {result : Option (Except ε α)}
    (h : Exec env (throw e : Action S ε α).run w trace result w') :
    trace = [] ∧ w' = w ∧ (result = none ∨ result = some (.error e)) := exec_done h

/-- A sequence that starts with a call is killed before the call, or goes on with
the answer. -/
theorem exec_perform_bind {op : S.Op} {f : S.Answer op → Action S ε β}
    {result : Option (Except ε β)}
    (h : Exec env (Action.perform op >>= f).run w trace result w') :
    (trace = [] ∧ result = none ∧ w' = w) ∨
      ∃ answer w₁ rest, trace = ⟨w, op, answer, w₁⟩ :: rest ∧ env w op answer w₁ ∧
        Exec env (f answer).run w₁ rest result w' := by
  have hcall : (Action.perform op >>= f).run =
      (call op fun answer => (f answer).run : Program S (Except ε β)) := rfl
  rw [hcall] at h
  exact exec_call h

/-- An action that asks once and goes by the answer. -/
theorem exec_ask (op : S.Op) (f : S.Answer op → Except ε α) {result : Option (Except ε α)}
    (h : Exec env (Action.perform op >>= fun answer => Action.ofExcept (f answer)).run
      w trace result w') :
    (trace = [] ∧ result = none ∧ w' = w) ∨
      ∃ answer, trace = [⟨w, op, answer, w'⟩] ∧ env w op answer w' ∧
        (result = none ∨ result = some (f answer)) := by
  rcases exec_perform_bind h with hkill | ⟨answer, w₁, rest, rfl, henv, hrest⟩
  · exact Or.inl hkill
  · obtain ⟨rfl, rfl, hresult⟩ := exec_ofExcept hrest
    exact Or.inr ⟨answer, rfl, henv, hresult⟩

theorem exec_action_perform {op : S.Op} {result : Option (Except ε (S.Answer op))}
    (h : Exec env (Action.perform op : Action S ε (S.Answer op)).run w trace result w') :
    (trace = [] ∧ result = none ∧ w' = w) ∨
      ∃ answer, trace = [⟨w, op, answer, w'⟩] ∧ env w op answer w' ∧
        (result = none ∨ result = some (.ok answer)) :=
  exec_ask op _ h

/-- An attempt runs the action and never fails itself. -/
theorem exec_attempt {x : Action S ε α} {result : Option (Except ε (Except ε α))}
    (h : Exec env x.attempt.run w trace result w') :
    (result = none ∧ Exec env x.run w trace none w') ∨
      ∃ r, (result = none ∨ result = some (.ok r)) ∧ Exec env x.run w trace (some r) w' := by
  rcases exec_bind h with hkill | ⟨r, first, second, w₁, rfl, hx, hrest⟩
  · exact Or.inl hkill
  · obtain ⟨rfl, rfl, hresult⟩ := exec_done hrest
    exact Or.inr ⟨r, hresult, by simpa using hx⟩

theorem attempt_error {x : Action S ε α} {e : ε}
    (h : Exec env x.attempt.run w trace (some (.error e)) w') : False := by
  rcases exec_attempt h with ⟨hnone, _⟩ | ⟨r, hnone | hok, _⟩
  · cases hnone
  · cases hnone
  · cases hok

theorem perform_error {op : S.Op} {e : ε}
    (h : Exec env (Action.perform op : Action S ε (S.Answer op)).run w trace (some (.error e)) w') :
    False := by
  rcases exec_action_perform h with ⟨_, hnone, _⟩ | ⟨answer, _, _, hnone | hok⟩
  · cases hnone
  · cases hnone
  · cases hok

theorem pure_error {a : α} {e : ε}
    (h : Exec env (pure a : Action S ε α).run w trace (some (.error e)) w') : False := by
  obtain ⟨_, _, hnone | hok⟩ := exec_pure h
  · cases hnone
  · cases hok

theorem pure_ok {a b : α}
    (h : Exec env (pure a : Action S ε α).run w trace (some (.ok b)) w') :
    trace = [] ∧ w' = w ∧ b = a := by
  obtain ⟨rfl, rfl, hnone | hok⟩ := exec_pure h
  · cases hnone
  · exact ⟨rfl, rfl, Except.ok.inj (Option.some.inj hok)⟩

/-- No execution of the action fails with this error. -/
def Avoids (env : Environment S W) (e : ε) (x : Action S ε α) : Prop :=
  ∀ w trace w', ¬ Exec env x.run w trace (some (.error e)) w'

theorem avoids_pure {a : α} {e : ε} : Avoids env e (pure a) := fun _ _ _ h => pure_error h

theorem avoids_ofExcept {r : Except ε α} {e : ε} (h : r ≠ .error e) :
    Avoids env e (Action.ofExcept r) := by
  intro w trace w' hexec
  obtain ⟨_, _, hnone | hsome⟩ := exec_ofExcept hexec
  · cases hnone
  · exact h (Option.some.inj hsome).symm

theorem avoids_throw {e e' : ε} (h : e' ≠ e) : Avoids env e (throw e' : Action S ε α) :=
  avoids_ofExcept fun heq => h (Except.error.inj heq)

theorem Avoids.bind {x : Action S ε α} {f : α → Action S ε β} {e : ε} (hx : Avoids env e x)
    (hf : ∀ a, Avoids env e (f a)) : Avoids env e (x >>= f) := by
  intro w trace w' hexec
  rcases exec_action_bind_error hexec with hfirst | ⟨a, _, second, w₁, _, _, hsecond⟩
  · exact hx _ _ _ hfirst
  · exact hf a w₁ second w' hsecond

/-- A call fails nothing by itself, but its answer may. -/
theorem avoids_perform_bind {op : S.Op} {f : S.Answer op → Action S ε β} {e : ε}
    (h : ∀ w answer w', env w op answer w' → Avoids env e (f answer)) :
    Avoids env e (Action.perform op >>= f) := by
  intro w trace w' hexec
  rcases exec_perform_bind hexec with ⟨_, hnone, _⟩ | ⟨answer, w₁, rest, _, henv, hrest⟩
  · cases hnone
  · exact h w answer w₁ henv w₁ rest w' hrest

/-- What follows an attempt sees no error that the attempted action avoids. -/
theorem avoids_attempt_bind {x : Action S ε α} {f : Except ε α → Action S ε β} {e : ε}
    (hx : Avoids env e x) (hf : ∀ r, r ≠ .error e → Avoids env e (f r)) :
    Avoids env e (x.attempt >>= f) := by
  intro w trace w' hexec
  rcases exec_action_bind_error hexec with hfirst | ⟨r, first, second, w₁, _, hattempt, hsecond⟩
  · exact attempt_error hfirst
  · refine hf r ?_ w₁ second w' hsecond
    rintro rfl
    rcases exec_attempt hattempt with ⟨hnone, _⟩ | ⟨r', hnone | hsome, hinner⟩
    · cases hnone
    · cases hnone
    · cases hsome
      exact hx _ _ _ hinner

end Actions

/-! Runs: the program is started again and again, each time in the world that
the previous start left behind, finished or killed. -/

structure Pass (S : Signature) (W α : Type) where
  before : W
  trace : List (Event S W)
  result : Option α
  after : W

inductive Run (env : Environment S W) (p : Program S α) :
    W → List (Pass S W α) → W → Prop
  | nil (w : W) : Run env p w [] w
  | cons {w w₁ w₂ : W} {trace : List (Event S W)} {result : Option α}
      {passes : List (Pass S W α)} (hpass : Exec env p w trace result w₁)
      (hrest : Run env p w₁ passes w₂) :
      Run env p w (⟨w, trace, result, w₁⟩ :: passes) w₂

/-- A run in which every start may be of another program of the family. -/
inductive RunOf (env : Environment S W) (A : Program S α → Prop) :
    W → List (Pass S W α) → W → Prop
  | nil (w : W) : RunOf env A w [] w
  | cons {p : Program S α} {w w₁ w₂ : W} {trace : List (Event S W)} {result : Option α}
      {passes : List (Pass S W α)} (hprogram : A p) (hpass : Exec env p w trace result w₁)
      (hrest : RunOf env A w₁ passes w₂) :
      RunOf env A w (⟨w, trace, result, w₁⟩ :: passes) w₂

theorem Run.runOf {env : Environment S W} {p : Program S α} {w w' : W}
    {passes : List (Pass S W α)} (h : Run env p w passes w') :
    RunOf env (fun q => q = p) w passes w' := by
  induction h with
  | nil w => exact RunOf.nil w
  | cons hpass _ ih => exact RunOf.cons rfl hpass ih

section RunsOf

variable {env : Environment S W} {A : Program S α → Prop} {w w' : W}
  {passes : List (Pass S W α)}

/-- What one pass preserves holds after the whole run, and before each of its passes. -/
theorem RunOf.invariant {I : W → Prop} {C : Pass S W α → Prop}
    (hpass : ∀ (p : Program S α) (q : Pass S W α), A p →
      Exec env p q.before q.trace q.result q.after → C q → I q.before → I q.after)
    (h : RunOf env A w passes w') (hC : ∀ q ∈ passes, C q) (hw : I w) :
    I w' ∧ ∀ q ∈ passes, I q.before ∧
      ∃ p, A p ∧ Exec env p q.before q.trace q.result q.after := by
  induction h with
  | nil w => exact ⟨hw, by simp⟩
  | cons hprogram hexec _ ih =>
    have hmid := hpass _ ⟨_, _, _, _⟩ hprogram hexec (hC _ (List.mem_cons_self ..)) hw
    obtain ⟨hend, hall⟩ := ih (fun q hq => hC q (List.mem_cons_of_mem _ hq)) hmid
    refine ⟨hend, fun q hq => ?_⟩
    rcases List.mem_cons.mp hq with rfl | hq
    · exact ⟨hw, _, hprogram, hexec⟩
    · exact hall q hq

/-- The worlds a run goes through, in their order. -/
def worlds (passes : List (Pass S W α)) : List W :=
  passes.flatMap fun q => q.before :: q.trace.map Event.after

/-- What orders the worlds of every pass orders the worlds of the whole run. -/
theorem RunOf.ordered {R : W → W → Prop} (hrefl : ∀ v, R v v)
    (htrans : ∀ u v x, R u v → R v x → R u x)
    (hevent : ∀ (p : Program S α) (q : Pass S W α), A p →
      Exec env p q.before q.trace q.result q.after → ∀ e ∈ q.trace, R e.before e.after)
    (h : RunOf env A w passes w') :
    (worlds passes ++ [w']).Pairwise R ∧ ∀ v ∈ worlds passes ++ [w'], R w v := by
  induction h with
  | nil w => simp [worlds, hrefl]
  | @cons p w w₁ w₂ trace result passes hprogram hexec _ ih =>
    have hpass := hevent p ⟨w, trace, result, w₁⟩ hprogram hexec
    obtain ⟨hfirst, hmid⟩ := hexec.ordered hrefl htrans hpass
    obtain ⟨hrest, hstart⟩ := ih
    have hworlds : worlds (⟨w, trace, result, w₁⟩ :: passes) ++ [w₂] =
        (w :: trace.map Event.after) ++ (worlds passes ++ [w₂]) := by simp [worlds]
    have hcross : ∀ u ∈ w :: trace.map Event.after, ∀ v ∈ worlds passes ++ [w₂], R u v :=
      fun u hu v hv => htrans _ _ _ (hmid u hu) (hstart v hv)
    rw [hworlds]
    refine ⟨List.pairwise_append.mpr ⟨hfirst, hrest, hcross⟩, fun v hv => ?_⟩
    rcases List.mem_append.mp hv with hv | hv
    · rcases List.mem_cons.mp hv with rfl | hv
      · exact hrefl _
      · exact List.rel_of_pairwise_cons hfirst hv
    · exact hcross w (List.mem_cons_self ..) v hv

/-- The last pass starts where the passes before it lead, and ends the run. -/
theorem RunOf.last {q : Pass S W α} (h : RunOf env A w (passes ++ [q]) w') :
    RunOf env A w passes q.before ∧ q.after = w' ∧
      ∃ p, A p ∧ Exec env p q.before q.trace q.result q.after := by
  induction passes generalizing w with
  | nil =>
    cases h with
    | cons hprogram hexec hrest =>
      cases hrest
      exact ⟨RunOf.nil _, rfl, _, hprogram, hexec⟩
  | cons first rest ih =>
    cases h with
    | cons hprogram hexec hrest =>
      obtain ⟨hfront, hlast⟩ := ih hrest
      exact ⟨RunOf.cons hprogram hexec hfront, hlast⟩

end RunsOf

section Runs

variable {env : Environment S W} {p : Program S α} {w w' : W} {passes : List (Pass S W α)}

theorem Run.single {trace : List (Event S W)} {result : Option α}
    (h : Exec env p w trace result w') : Run env p w [⟨w, trace, result, w'⟩] w' :=
  Run.cons h (Run.nil w')

theorem Run.of_single {q : Pass S W α} (h : Run env p w [q] w') :
    q.before = w ∧ q.after = w' ∧ Exec env p q.before q.trace q.result q.after := by
  cases h with
  | cons hexec hrest =>
    cases hrest
    exact ⟨rfl, rfl, hexec⟩

theorem Run.invariant {I : W → Prop} {C : Pass S W α → Prop}
    (hpass : ∀ q : Pass S W α, Exec env p q.before q.trace q.result q.after →
      C q → I q.before → I q.after)
    (h : Run env p w passes w') (hC : ∀ q ∈ passes, C q) (hw : I w) :
    I w' ∧ ∀ q ∈ passes, I q.before ∧ Exec env p q.before q.trace q.result q.after := by
  have hpasses : ∀ (p' : Program S α) (q : Pass S W α), p' = p →
      Exec env p' q.before q.trace q.result q.after → C q → I q.before → I q.after := by
    rintro _ q rfl hexec
    exact hpass q hexec
  obtain ⟨hend, hall⟩ := h.runOf.invariant hpasses hC hw
  refine ⟨hend, fun q hq => ?_⟩
  obtain ⟨hbefore, _, rfl, hexec⟩ := hall q hq
  exact ⟨hbefore, hexec⟩

theorem Run.ordered {R : W → W → Prop} (hrefl : ∀ v, R v v)
    (htrans : ∀ u v x, R u v → R v x → R u x)
    (hevent : ∀ q : Pass S W α, Exec env p q.before q.trace q.result q.after →
      ∀ e ∈ q.trace, R e.before e.after)
    (h : Run env p w passes w') :
    (worlds passes ++ [w']).Pairwise R ∧ ∀ v ∈ worlds passes ++ [w'], R w v := by
  refine h.runOf.ordered hrefl htrans ?_
  rintro _ q rfl hexec
  exact hevent q hexec

theorem Run.relates {R : W → W → Prop} (hrefl : ∀ v, R v v)
    (htrans : ∀ u v x, R u v → R v x → R u x)
    (hevent : ∀ q : Pass S W α, Exec env p q.before q.trace q.result q.after →
      ∀ e ∈ q.trace, R e.before e.after)
    (h : Run env p w passes w') : R w w' :=
  (h.ordered hrefl htrans hevent).2 w' (List.mem_append_right _ (List.mem_singleton_self w'))

/-- Any two parts of a run are runs that meet. -/
theorem Run.split {first second : List (Pass S W α)} (h : Run env p w (first ++ second) w') :
    ∃ w₁, Run env p w first w₁ ∧ Run env p w₁ second w' := by
  induction first generalizing w with
  | nil => exact ⟨w, Run.nil w, h⟩
  | cons q rest ih =>
    cases h with
    | cons hexec hrest =>
      obtain ⟨w₁, hfirst, hsecond⟩ := ih hrest
      exact ⟨w₁, Run.cons hexec hfirst, hsecond⟩

/-- A pass leaves a trait behind that later passes keep; any two passes of a run
are then related as soon as starting under the trait relates them. -/
theorem Run.pairwise {R : Pass S W α → Pass S W α → Prop} {K : Pass S W α → W → Prop}
    {C : Pass S W α → Prop} {I : W → Prop}
    (hinv : ∀ q : Pass S W α, Exec env p q.before q.trace q.result q.after →
      C q → I q.before → I q.after)
    (hleave : ∀ q : Pass S W α, Exec env p q.before q.trace q.result q.after →
      C q → I q.before → K q q.after)
    (hkeep : ∀ o q : Pass S W α, Exec env p q.before q.trace q.result q.after →
      C q → I q.before → K o q.before → K o q.after)
    (hrel : ∀ o q : Pass S W α, Exec env p q.before q.trace q.result q.after →
      C q → I q.before → K o q.before → R o q)
    (h : Run env p w passes w') (hC : ∀ q ∈ passes, C q) (hw : I w) :
    passes.Pairwise R := by
  induction h with
  | nil w => exact List.Pairwise.nil
  | @cons w w₁ w₂ trace result passes hexec hrest ih =>
    have hhead : C ⟨w, trace, result, w₁⟩ := hC _ (List.mem_cons_self ..)
    have htail : ∀ q ∈ passes, C q := fun q hq => hC q (List.mem_cons_of_mem _ hq)
    have hmid := hinv ⟨w, trace, result, w₁⟩ hexec hhead hw
    refine List.Pairwise.cons ?_ (ih htail hmid)
    have hK := hleave ⟨w, trace, result, w₁⟩ hexec hhead hw
    have hstep : ∀ q : Pass S W α, Exec env p q.before q.trace q.result q.after → C q →
        I q.before ∧ K ⟨w, trace, result, w₁⟩ q.before →
        I q.after ∧ K ⟨w, trace, result, w₁⟩ q.after := by
      intro q hq hCq hIK
      exact ⟨hinv q hq hCq hIK.1, hkeep _ q hq hCq hIK.1 hIK.2⟩
    intro q hq
    obtain ⟨hIK, hqexec⟩ := (hrest.invariant
      (I := fun v => I v ∧ K ⟨w, trace, result, w₁⟩ v) hstep htail ⟨hmid, hK⟩).2 q hq
    exact hrel _ q hqexec (htail q hq) hIK.1 hIK.2

end Runs

def Signature.sum (S T : Signature) : Signature where
  Op := S.Op ⊕ T.Op
  Answer := Sum.elim S.Answer T.Answer

/-- A program, among the calls of a second signature. -/
def Program.inl {T : Signature} : Program S α → Program (S.sum T) α
  | done a => done a
  | call op next => call (S := S.sum T) (.inl op) fun answer => (next answer).inl
  | running => running

theorem calls_inl {T : Signature} {P : S.Op → Prop} {Q : (S.sum T).Op → Prop} {p : Program S α}
    (hp : p.Calls P) (hPQ : ∀ op, P op → Q (.inl op)) :
    (p.inl : Program (S.sum T) α).Calls Q := by
  induction p with
  | done a => trivial
  | call op next ih => exact ⟨hPQ op hp.1, fun answer => ih answer (hp.2 answer)⟩
  | running => trivial

def Event.inl {T : Signature} (e : Event S W) : Event (S.sum T) W :=
  ⟨e.before, .inl e.op, e.answer, e.after⟩

theorem Event.inl_injective {T : Signature} :
    Function.Injective (Event.inl : Event S W → Event (S.sum T) W) := by
  rintro ⟨before, op, answer, after⟩ ⟨before', op', answer', after'⟩ h
  cases h
  rfl

/-- The executions of such a program are those of the program itself. -/
theorem exec_inl {T : Signature} {env : Environment (S.sum T) W} {p : Program S α}
    {w w' : W} {trace : List (Event (S.sum T) W)} {result : Option α}
    (h : Exec env (p.inl : Program (S.sum T) α) w trace result w') :
    ∃ inner : List (Event S W), trace = inner.map Event.inl ∧
      Exec (fun v op answer v' => env v (.inl op) answer v') p w inner result w' := by
  induction p generalizing w trace with
  | done a =>
    obtain ⟨rfl, rfl, hnone | hsome⟩ := exec_done h
    · exact ⟨[], rfl, hnone ▸ Exec.killed _ _⟩
    · exact ⟨[], rfl, hsome ▸ Exec.finished a _⟩
  | running =>
    cases h with
    | killed => exact ⟨[], rfl, Exec.killed _ _⟩
  | call op next ih =>
    rcases exec_call h with ⟨rfl, rfl, rfl⟩ | ⟨answer, w₁, rest, rfl, henv, hrest⟩
    · exact ⟨[], rfl, Exec.killed _ _⟩
    · obtain ⟨inner, rfl, hinner⟩ := ih answer hrest
      exact ⟨⟨w, op, answer, w₁⟩ :: inner, rfl, Exec.step henv hinner⟩

/-! Concrete executions are computed by playing a program against a policy that
answers each call, or kills the program in front of it. -/

def play (policy : W → (op : S.Op) → Option (S.Answer op × W)) :
    Program S α → W → List (Event S W) × Option α × W
  | done a, w => ([], some a, w)
  | call op next, w =>
    match policy w op with
    | none => ([], none, w)
    | some (answer, w₁) =>
      let rest := play policy (next answer) w₁
      (⟨w, op, answer, w₁⟩ :: rest.1, rest.2)
  | running, w => ([], none, w)

theorem exec_play {env : Environment S W}
    {policy : W → (op : S.Op) → Option (S.Answer op × W)}
    (hpolicy : ∀ w op answer w₁, policy w op = some (answer, w₁) → env w op answer w₁)
    (p : Program S α) (w : W) :
    Exec env p w (play policy p w).1 (play policy p w).2.1 (play policy p w).2.2 := by
  induction p generalizing w with
  | done a => exact Exec.finished a w
  | running => exact Exec.killed _ w
  | call op next ih =>
    simp only [play]
    cases hmove : policy w op with
    | none => exact Exec.killed _ w
    | some move =>
      obtain ⟨answer, w₁⟩ := move
      exact Exec.step (hpolicy w op answer w₁ hmove) (ih answer w₁)

/-- What playing a program results in, and the world it leaves. -/
def outcome (policy : W → (op : S.Op) → Option (S.Answer op × W)) (p : Program S α) (w : W) :
    Option α × W :=
  (play policy p w).2

section Outcomes

variable {policy : W → (op : S.Op) → Option (S.Answer op × W)} {w w' : W}

theorem outcome_call {op : S.Op} {next : S.Answer op → Program S α} {answer : S.Answer op}
    (h : policy w op = some (answer, w')) :
    outcome policy (call op next) w = outcome policy (next answer) w' := by
  simp only [outcome, play, h]

theorem outcome_bind {p : Program S α} {a : α} (f : α → Program S β)
    (h : outcome policy p w = (some a, w')) :
    outcome policy (p >>= f) w = outcome policy (f a) w' := by
  induction p generalizing w with
  | done b =>
    obtain ⟨hresult, rfl⟩ := Prod.mk.inj h
    obtain rfl := Option.some.inj hresult
    rfl
  | running => cases (Prod.mk.inj h).1
  | call op next ih =>
    cases hmove : policy w op with
    | none => simp [outcome, play, hmove] at h
    | some move =>
      obtain ⟨answer, w₁⟩ := move
      rw [outcome_call hmove] at h
      rw [call_bind, outcome_call hmove]
      exact ih answer h

theorem outcome_action_ok {x : Action S ε α} {a : α} (f : α → Action S ε β)
    (h : outcome policy x.run w = (some (.ok a), w')) :
    outcome policy (x >>= f).run w = outcome policy (f a).run w' := by
  rw [run_bind]
  exact outcome_bind _ h

theorem outcome_action_error {x : Action S ε α} {e : ε} (f : α → Action S ε β)
    (h : outcome policy x.run w = (some (.error e), w')) :
    outcome policy (x >>= f).run w = (some (.error e), w') := by
  rw [run_bind]
  exact outcome_bind _ h

/-- An action that asks once and goes by the answer, in front of others. -/
theorem outcome_ask {op : S.Op} {answer : S.Answer op} (f : S.Answer op → Except ε α)
    (h : policy w op = some (answer, w')) :
    outcome policy (Action.perform op >>= fun answer => Action.ofExcept (f answer)).run w =
      (some (f answer), w') :=
  outcome_call h

end Outcomes

end MayflyAgent.Programs
