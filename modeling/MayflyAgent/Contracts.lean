import MayflyAgent.Programs

/-!
Contracts of effectful programs. A condition speaks of a world and of the events that led
there. A program meets a contract when, started under the precondition, it makes only events
that the contract permits after what came before, wherever it is killed, and leaves the
postcondition of its result if it finishes. The rules follow the way programs are put together.
-/
namespace MayflyAgent.Contracts

open Programs Program

variable {S : Signature} {W α β ε : Type}

abbrev Condition (S : Signature) (W : Type) := List (Event S W) → W → Prop

/-- Every event of a trace that goes on from the history satisfies `E`. -/
def Throughout (E : List (Event S W) → Event S W → Prop) :
    List (Event S W) → List (Event S W) → Prop
  | _, [] => True
  | past, e :: rest => E past e ∧ Throughout E (past ++ [e]) rest

instance decidableThroughout {E : List (Event S W) → Event S W → Prop}
    [∀ past e, Decidable (E past e)] : ∀ past trace, Decidable (Throughout E past trace)
  | _, [] => isTrue trivial
  | past, e :: rest =>
    have := decidableThroughout (E := E) (past ++ [e]) rest
    inferInstanceAs (Decidable (E past e ∧ Throughout E (past ++ [e]) rest))

section Histories

variable {E : List (Event S W) → Event S W → Prop} {past first second : List (Event S W)}

theorem throughout_append : Throughout E past (first ++ second) ↔
    Throughout E past first ∧ Throughout E (past ++ first) second := by
  induction first generalizing past with
  | nil => simp [Throughout]
  | cons e rest ih => simp [Throughout, ih, and_assoc]

/-- An event may rely on everything in front of it. -/
theorem Throughout.middle {e : Event S W} (h : Throughout E past (first ++ e :: second)) :
    E (past ++ first) e := (throughout_append.mp h).2.1

theorem throughout_iff {trace : List (Event S W)} : Throughout E past trace ↔
    ∀ first e rest, trace = first ++ e :: rest → E (past ++ first) e := by
  refine ⟨fun h first e rest htrace => (htrace ▸ h).middle, fun h => ?_⟩
  induction trace generalizing past with
  | nil => trivial
  | cons e trace ih =>
    refine ⟨by simpa using h [] e trace rfl, ih fun first x rest htrace => ?_⟩
    simpa using h (e :: first) x rest (congrArg (e :: ·) htrace)

theorem Throughout.forall_mem {C : Event S W → Prop} {trace : List (Event S W)}
    (h : Throughout E past trace) (hC : ∀ past e, E past e → C e) : ∀ e ∈ trace, C e := by
  intro e he
  obtain ⟨first, rest, rfl⟩ := List.append_of_mem he
  exact hC _ e h.middle

end Histories

def Meets (env : Environment S W) (E : List (Event S W) → Event S W → Prop)
    (P : Condition S W) (p : Program S α) (Q : α → Condition S W) : Prop :=
  ∀ past w trace result w', P past w → Exec env p w trace result w' →
    Throughout E past trace ∧ ∀ a, result = some a → Q a (past ++ trace) w'

/-- The postcondition of a fallible action. -/
def Returns (F : ε → Condition S W) (Q : α → Condition S W) : Except ε α → Condition S W
  | .ok a => Q a
  | .error e => F e

section Rules

variable {env : Environment S W} {E : List (Event S W) → Event S W → Prop}
  {P : Condition S W} {F : ε → Condition S W} {Q : α → Condition S W} {R : β → Condition S W}

theorem meets_done {a : α} (h : ∀ past w, P past w → Q a past w) :
    Meets env E P (done a : Program S α) Q := by
  intro past w trace result w' hP hexec
  obtain ⟨rfl, rfl, hresult⟩ := exec_done hexec
  refine ⟨trivial, fun b hb => ?_⟩
  rcases hresult with rfl | rfl
  · cases hb
  · obtain rfl := Option.some.inj hb
    simpa using h past w' hP

theorem meets_running : Meets env E P (running : Program S α) Q := by
  intro past w trace result w' _ hexec
  cases hexec
  exact ⟨trivial, nofun⟩

theorem Meets.bind {p : Program S α} {f : α → Program S β} (hp : Meets env E P p Q)
    (hf : ∀ a, Meets env E (Q a) (f a) R) : Meets env E P (p >>= f) R := by
  intro past w trace result w' hP hexec
  rcases exec_bind hexec with ⟨rfl, hkill⟩ | ⟨a, first, second, w₁, rfl, hfirst, hsecond⟩
  · exact ⟨(hp past w trace none w' hP hkill).1, nofun⟩
  · obtain ⟨hpast, hmid⟩ := hp past w first (some a) w₁ hP hfirst
    obtain ⟨hrest, hend⟩ := hf a (past ++ first) w₁ second result w' (hmid a rfl) hsecond
    rw [← List.append_assoc]
    exact ⟨throughout_append.mpr ⟨hpast, hrest⟩, hend⟩

theorem Meets.pre {P' : Condition S W} {p : Program S α} (h : Meets env E P p Q)
    (hP : ∀ past w, P' past w → P past w) : Meets env E P' p Q :=
  fun past w trace result w' hw hexec => h past w trace result w' (hP past w hw) hexec

theorem Meets.post {Q' : α → Condition S W} {p : Program S α} (h : Meets env E P p Q)
    (hQ : ∀ a past w, Q a past w → Q' a past w) : Meets env E P p Q' := by
  intro past w trace result w' hP hexec
  obtain ⟨hevents, hend⟩ := h past w trace result w' hP hexec
  exact ⟨hevents, fun a ha => hQ a _ _ (hend a ha)⟩

/-- What holds of all worlds of the precondition alike may be assumed. -/
theorem meets_of_fact {C : Prop} {p : Program S α} (hC : ∀ past w, P past w → C)
    (h : C → Meets env E P p Q) : Meets env E P p Q :=
  fun past w trace result w' hP hexec => h (hC past w hP) past w trace result w' hP hexec

theorem meets_exists {ι : Type} {P : ι → Condition S W} {p : Program S α}
    (h : ∀ i, Meets env E (P i) p Q) : Meets env E (fun past w => ∃ i, P i past w) p Q :=
  fun past w trace result w' ⟨i, hP⟩ hexec => h i past w trace result w' hP hexec

theorem meets_call {op : S.Op} {next : S.Answer op → Program S α}
    {M : S.Answer op → Condition S W}
    (hcall : ∀ past w answer w', P past w → env w op answer w' →
      E past ⟨w, op, answer, w'⟩ ∧ M answer (past ++ [⟨w, op, answer, w'⟩]) w')
    (hnext : ∀ answer, Meets env E (M answer) (next answer) Q) :
    Meets env E P (call op next) Q := by
  intro past w trace result w' hP hexec
  rcases exec_call hexec with ⟨rfl, rfl, rfl⟩ | ⟨answer, w₁, rest, rfl, henv, hrest⟩
  · exact ⟨trivial, nofun⟩
  · obtain ⟨hevent, hmid⟩ := hcall past w answer w₁ hP henv
    obtain ⟨hevents, hend⟩ := hnext answer _ w₁ rest result w' hmid hrest
    rw [List.append_assoc] at hend
    exact ⟨⟨hevent, hevents⟩, hend⟩

/-- A program keeps what each of its calls keeps. -/
theorem meets_keeps {C : S.Op → Prop} {p : Program S α} (hp : p.Calls C)
    (hkeep : ∀ past w op answer w', C op → P past w → env w op answer w' →
      E past ⟨w, op, answer, w'⟩ ∧ P (past ++ [⟨w, op, answer, w'⟩]) w') :
    Meets env E P p fun _ => P := by
  induction p with
  | done a => exact meets_done fun _ _ h => h
  | call op next ih =>
    exact meets_call (fun past w answer w' hP henv => hkeep past w op answer w' hp.1 hP henv)
      fun answer => ih answer (hp.2 answer)
  | running => exact meets_running

theorem Meets.andThen {x : Action S ε α} {f : α → Action S ε β}
    (hx : Meets env E P x.run (Returns F Q))
    (hf : ∀ a, Meets env E (Q a) (f a).run (Returns F R)) :
    Meets env E P (x >>= f).run (Returns F R) := by
  rw [run_bind]
  apply hx.bind
  intro r
  cases r with
  | ok a => exact hf a
  | error e => exact meets_done fun past w h => h

theorem meets_pure {a : α} (h : ∀ past w, P past w → Q a past w) :
    Meets env E P (pure a : Action S ε α).run (Returns F Q) := meets_done h

theorem meets_throw {e : ε} (h : ∀ past w, P past w → F e past w) :
    Meets env E P (throw e : Action S ε α).run (Returns F Q) := meets_done h

/-- A pure step adds what its success says. -/
theorem meets_ofExcept {r : Except ε α}
    (h : ∀ past w e, P past w → r = .error e → F e past w) :
    Meets env E P (Action.ofExcept r).run
      (Returns F fun a past w => P past w ∧ r = .ok a) := by
  apply meets_done
  intro past w hP
  cases r with
  | ok a => exact ⟨hP, rfl⟩
  | error e => exact h past w e hP rfl

/-- Behind a pure step its success may be assumed. -/
theorem meets_ofExcept_bind {r : Except ε α} {f : α → Action S ε β}
    (herror : ∀ past w e, P past w → r = .error e → F e past w)
    (hf : ∀ a, r = .ok a → Meets env E P (f a).run (Returns F R)) :
    Meets env E P (Action.ofExcept r >>= f).run (Returns F R) := by
  refine (meets_ofExcept herror).andThen fun a => ?_
  refine meets_of_fact (fun past w h => h.2) fun hr => ?_
  exact (hf a hr).pre fun past w h => h.1

theorem meets_perform {op : S.Op} {M : S.Answer op → Condition S W}
    (h : ∀ past w answer w', P past w → env w op answer w' →
      E past ⟨w, op, answer, w'⟩ ∧ M answer (past ++ [⟨w, op, answer, w'⟩]) w') :
    Meets env E P (Action.perform op : Action S ε (S.Answer op)).run (Returns F M) :=
  meets_call h fun _ => meets_done fun _ _ hM => hM

/-- An action that asks once and goes by the answer. -/
theorem meets_ask {op : S.Op} {f : S.Answer op → Except ε α}
    (h : ∀ past w answer w', P past w → env w op answer w' →
      E past ⟨w, op, answer, w'⟩ ∧ Returns F Q (f answer) (past ++ [⟨w, op, answer, w'⟩]) w') :
    Meets env E P (Action.perform op >>= fun answer => Action.ofExcept (f answer)).run
      (Returns F Q) :=
  meets_call h fun _ => meets_done fun _ _ hM => hM

theorem meets_keeps_action {C : S.Op → Prop} {x : Action S ε α} (hx : x.run.Calls C)
    (hkeep : ∀ past w op answer w', C op → P past w → env w op answer w' →
      E past ⟨w, op, answer, w'⟩ ∧ P (past ++ [⟨w, op, answer, w'⟩]) w') :
    Meets env E P x.run (Returns (fun _ => P) fun _ => P) := by
  refine (meets_keeps hx hkeep).post fun r past w h => ?_
  cases r with
  | ok a => exact h
  | error e => exact h

/-- An attempt turns an error into a result. -/
theorem Meets.attempt {F' : ε → Condition S W} {x : Action S ε α}
    (hx : Meets env E P x.run (Returns F Q)) :
    Meets env E P x.attempt.run (Returns F' (Returns F Q)) :=
  hx.bind fun _ => meets_done fun _ _ h => h

end Rules

end MayflyAgent.Contracts
