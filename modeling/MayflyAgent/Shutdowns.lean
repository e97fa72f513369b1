import MayflyAgent.Budgets
import MayflyAgent.Contracts
import MayflyAgent.Scheduling

/-!
What the two loops of the daemon still do once a shutdown was requested. The flag may be set
between any two calls or during one, and is never cleared. Both loops ask it before they go on and
before every chunk of a sleep, so that little is left: of the poll loop the actions of one batch,
of the retry loop an attempt whose check had passed, and of any sleep one chunk.
-/
namespace MayflyAgent.Shutdowns

open Programs Contracts Budgets Scheduling
open Enrollment (nextAttempt)
open Heartbeats (PollAction)

variable {T : Type}

/-- The world tells whether a shutdown was requested. A check sees what held before it, and may see
what only holds behind it. -/
def signalled : Environment (loopSignature T) Bool := fun before op answer after =>
  (before = true → after = true) ∧
    match op, answer with
    | .isRequested, (seen : Bool) => (before = true → seen = true) ∧ (seen = true → after = true)
    | _, _ => True

/-- How many calls are made, how long a thread sleeps, how many attempts are made, and the poll
actions in their order. -/
@[ext]
structure Budget where
  calls : Nat
  slept : Nat
  attempts : Nat
  actions : List PollAction

structure Budget.Le (a b : Budget) : Prop where
  calls : a.calls ≤ b.calls
  slept : a.slept ≤ b.slept
  attempts : a.attempts ≤ b.attempts
  actions : a.actions.Sublist b.actions

instance : Add Budget where
  add a b := ⟨a.calls + b.calls, a.slept + b.slept, a.attempts + b.attempts, a.actions ++ b.actions⟩

instance : Zero Budget where
  zero := ⟨0, 0, 0, []⟩

instance : AddMonoid Budget where
  add_assoc _ _ _ := Budget.ext (Nat.add_assoc _ _ _) (Nat.add_assoc _ _ _) (Nat.add_assoc _ _ _)
    (List.append_assoc _ _ _)
  zero_add _ := Budget.ext (Nat.zero_add _) (Nat.zero_add _) (Nat.zero_add _) (List.nil_append _)
  add_zero _ := Budget.ext rfl rfl rfl (List.append_nil _)
  nsmul := nsmulRec

instance : Preorder Budget where
  le := Budget.Le
  le_refl a := ⟨le_rfl, le_rfl, le_rfl, List.Sublist.refl _⟩
  le_trans a b c hab hbc := ⟨hab.calls.trans hbc.calls, hab.slept.trans hbc.slept,
    hab.attempts.trans hbc.attempts, hab.actions.trans hbc.actions⟩

instance : AddLeftMono Budget where
  elim _ _ _ h := ⟨Nat.add_le_add_left h.calls _, Nat.add_le_add_left h.slept _,
    Nat.add_le_add_left h.attempts _, h.actions.append_left _⟩

instance : AddRightMono Budget where
  elim _ _ _ h := ⟨Nat.add_le_add_right h.calls _, Nat.add_le_add_right h.slept _,
    Nat.add_le_add_right h.attempts _, h.actions.append_right _⟩

instance : IsBotZeroClass Budget where
  isBot_zero _ := ⟨Nat.zero_le _, Nat.zero_le _, Nat.zero_le _, List.nil_sublist _⟩

/-- What a call counts for. -/
def tally : LoopOp → Budget
  | .threadSleep chunk => .mk 1 chunk 0 []
  | .act action => .mk 1 0 0 [action]
  | .attempt _ => .mk 1 0 1 []
  | _ => .mk 1 0 0 []

/-- The actions of one batch. -/
abbrev batch : List PollAction := [.heartbeat, .bundleSync]

theorem mk_le {calls slept attempts calls' slept' attempts' : Nat}
    {actions actions' : List PollAction} (hcalls : calls ≤ calls') (hslept : slept ≤ slept')
    (hattempts : attempts ≤ attempts') (hactions : actions.Sublist actions') :
    Budget.mk calls slept attempts actions ≤ Budget.mk calls' slept' attempts' actions' :=
  ⟨hcalls, hslept, hattempts, hactions⟩

theorem mk_add_le {calls slept attempts calls' slept' attempts' c s t : Nat}
    {actions actions' l : List PollAction} (hcalls : calls + calls' ≤ c)
    (hslept : slept + slept' ≤ s) (hattempts : attempts + attempts' ≤ t)
    (hactions : (actions ++ actions').Sublist l) :
    Budget.mk calls slept attempts actions + Budget.mk calls' slept' attempts' actions' ≤
      Budget.mk c s t l :=
  ⟨hcalls, hslept, hattempts, hactions⟩

/-- The flag is set and there is an answer. -/
def Answered {ε α : Type} (r : Except ε α) (requested : Bool) : Prop :=
  requested = true ∧ ∃ answer, r = .ok answer

section Parts

variable {ε α : Type} {requested : Bool} {n : Nat}

abbrev Ends {α : Type} (Q : α → Bool → Prop) (p : Program (loopSignature T) α)
    (allowance : Budget) : Prop := Within signalled tally Q p true allowance

abbrev Stops {α : Type} (Q : α → Bool → Prop) (p : Program (loopSignature T) α)
    (allowance : Budget) (n : Nat) (requested : Bool) : Prop :=
  WindsDown signalled tally (fun requested => requested = true) Q allowance p n requested

theorem ask_ends (op : LoopOp) :
    Ends Answered (ask op : Action (loopSignature T) ε (op.Answer T)).run (tally op) :=
  within_perform fun answer _ henv => ⟨henv.1 rfl, answer, rfl⟩

theorem ask_stops (op : LoopOp) :
    Stops Answered (ask op : Action (loopSignature T) ε (op.Answer T)).run (tally op) n requested :=
  windsDown_perform fun answer _ _ hstopped => ⟨hstopped, answer, rfl⟩

/-- Behind the request a check sees it. -/
theorem isRequested_ends :
    Ends (fun r after => after = true ∧ r = .ok true)
      (isRequested : Action (loopSignature T) ε Bool).run (tally .isRequested) := by
  refine within_perform (S := loopSignature T) fun (answer : Bool) after henv => ?_
  exact ⟨henv.1 rfl, congrArg Except.ok (henv.2.1 rfl)⟩

theorem check_ends {f : Bool → Action (loopSignature T) ε α} {Q : Except ε α → Bool → Prop}
    (hf : Ends Q (f true).run 0) : Ends Q (isRequested >>= f).run (tally .isRequested) := by
  refine isRequested_ends.andThen (fun seen after h => ?_) nofun (add_zero _).le
  obtain ⟨rfl, hseen⟩ := h
  obtain rfl := Except.ok.inj hseen
  exact hf

variable (sleeper : InterruptibleSleeper)

/-- A sleeper that is called behind the request sleeps no more. -/
theorem sleep_ends (duration : Nat) :
    Ends (fun r after => after = true ∧ r = .ok ())
      (sleeper.sleep duration : Action (loopSignature T) ε Unit).run (Budget.mk 1 0 0 []) := by
  rw [InterruptibleSleeper.sleep]
  split
  · exact ⟨rfl, rfl⟩
  · exact check_ends ⟨rfl, rfl⟩

/-- A call whose answer may be any. -/
theorem ends_call {op : LoopOp} {f : op.Answer T → Action (loopSignature T) ε α}
    {Q : Except ε α → Bool → Prop} {left total : Budget}
    (hf : ∀ answer, Ends Q (f answer).run left) (htotal : tally op + left ≤ total) :
    Ends Q (ask op >>= f).run total := by
  refine (ask_ends op).andThen (fun answer after h => ?_) ?_ htotal
  · rw [h.1]
    exact hf answer
  · rintro e after ⟨_, _, herror⟩
    cases herror

/-- The first call is one of those that are followed. -/
theorem stops_first {op : LoopOp} {f : op.Answer T → Action (loopSignature T) ε α}
    {Q : Except ε α → Bool → Prop} {left total : Budget}
    (hleft : ∀ answer, Ends Q (f answer).run left)
    (hf : ∀ answer requested, Stops Q (f answer).run total n requested)
    (htotal : tally op + left ≤ total) : Stops Q (ask op >>= f).run total (n + 1) requested := by
  intro answer after _
  refine ⟨fun hafter => ?_, hf answer after⟩
  obtain rfl : after = true := hafter
  exact ⟨left, htotal, hleft answer⟩

theorem stops_call {op : LoopOp} {f : op.Answer T → Action (loopSignature T) ε α}
    {Q : Except ε α → Bool → Prop} {left total : Budget}
    (hleft : 0 < n → ∀ answer, Ends Q (f answer).run left)
    (hf : ∀ answer requested, Stops Q (f answer).run total n requested)
    (htotal : tally op + left ≤ total) : Stops Q (ask op >>= f).run total n requested := by
  refine (ask_stops op).andThen (yieldsOk_trivial _)
    (fun hn answer after _ h => ?_) ?_ (fun answer requested _ => hf answer requested) htotal
  · rw [h.1]
    exact hleft hn answer
  · rintro e after ⟨_, _, herror⟩
    cases herror

/-- A sleeper that the request reaches finishes one chunk at most. -/
theorem sleep_stops (duration : Nat) : ∀ requested,
    Stops (fun r after => after = true ∧ r = .ok ())
      (sleeper.sleep duration : Action (loopSignature T) ε Unit).run
      (Budget.mk 3 sleeper.step 0 []) n requested := by
  induction duration using Nat.strong_induction_on with
  | h duration ih =>
    intro requested
    rw [InterruptibleSleeper.sleep]
    split
    · exact windsDown_done
    rename_i hduration
    have hshorter : duration - min duration sleeper.step < duration := by
      have hpositive := sleeper.positive
      omega
    have hchunk : min duration sleeper.step ≤ sleeper.step := min_le_right _ _
    have hslice : Ends (fun r after => after = true ∧ r = .ok ()) (do
        let _ ← ask (.threadSleep (min duration sleeper.step))
        sleeper.sleep (duration - min duration sleeper.step) :
        Action (loopSignature T) ε Unit).run (Budget.mk 2 sleeper.step 0 []) :=
      ends_call (fun _ => sleep_ends sleeper _)
        (mk_add_le le_rfl hchunk le_rfl (List.Sublist.refl _))
    have htotal : tally .isRequested + Budget.mk 2 sleeper.step 0 [] ≤
        Budget.mk 3 sleeper.step 0 [] :=
      mk_add_le le_rfl (Nat.zero_add _).le le_rfl (List.Sublist.refl _)
    refine stops_call (fun _ (seen : Bool) => ?_) (fun (seen : Bool) requested => ?_) htotal
    · cases seen with
      | true => exact ⟨rfl, rfl⟩
      | false => exact hslice
    · cases seen with
      | true => exact windsDown_done
      | false =>
        exact stops_call (fun _ _ => sleep_ends sleeper _) (fun _ => ih _ hshorter)
          (mk_add_le (Nat.le_succ 2) hchunk le_rfl (List.Sublist.refl _))

end Parts

section Polling

variable {requested : Bool} {n : Nat} (sleeper : InterruptibleSleeper) (s : Scheduler)

/-- The flag is set at the end. -/
def Flagged {α : Type} (_ : α) (requested : Bool) : Prop := requested = true

theorem dueFrom_ends (now : Bundles.Time) (action : PollAction) (interval : JitteredInterval) :
    Ends Flagged (dueFrom (T := T) now action interval).run (Budget.mk 1 0 0 []) :=
  ends_call (fun _ => (rfl : true = true)) (add_zero _).le

theorem dueFrom_stops (now : Bundles.Time) (action : PollAction) (interval : JitteredInterval) :
    Stops Flagged (dueFrom (T := T) now action interval).run (Budget.mk 1 0 0 []) n requested :=
  stops_call (fun _ _ => (rfl : true = true)) (fun _ _ => windsDown_done) (add_zero _).le

theorem take_yields (now : Bundles.Time) (action : PollAction) :
    YieldsOk (fun taken => taken.1.Sublist [action]) (s.take (T := T) now action) := by
  unfold Scheduler.take
  split
  · exact (yieldsOk_trivial _).andThen fun _ _ => yieldsOk_pure (List.Sublist.refl _)
  · exact yieldsOk_pure (List.nil_sublist _)

theorem take_ends (now : Bundles.Time) (action : PollAction) :
    Ends Flagged (s.take (T := T) now action).run (Budget.mk 1 0 0 []) := by
  unfold Scheduler.take
  split
  · exact (dueFrom_ends now action _).andThen (fun _ _ h => h) (fun _ _ h => h) (add_zero _).le
  · exact (rfl : true = true)

theorem take_stops (now : Bundles.Time) (action : PollAction) :
    Stops Flagged (s.take (T := T) now action).run (Budget.mk 1 0 0 []) n requested := by
  unfold Scheduler.take
  split
  · exact (dueFrom_stops now action _).andThen (yieldsOk_trivial _) (fun _ _ _ _ h => h)
      (fun _ _ h => h) (fun _ _ _ => windsDown_done) (add_zero _).le
  · exact windsDown_done

theorem takeDue_yields (now : Bundles.Time) :
    YieldsOk (fun taken => taken.1.Sublist batch) (s.takeDue (T := T) now) := by
  refine (take_yields s now .heartbeat).andThen fun heartbeats hheartbeats => ?_
  refine (take_yields heartbeats.2 now .bundleSync).andThen fun syncs hsyncs => ?_
  exact yieldsOk_pure (hheartbeats.append hsyncs)

theorem takeDue_ends (now : Bundles.Time) :
    Ends Flagged (s.takeDue (T := T) now).run (Budget.mk 2 0 0 []) := by
  have htotal : Budget.mk 1 0 0 [] + Budget.mk 1 0 0 [] ≤ Budget.mk 2 0 0 [] :=
    mk_add_le le_rfl le_rfl le_rfl (List.Sublist.refl _)
  refine (take_ends s now .heartbeat).andThen (fun heartbeats after h => ?_) (fun _ _ h => h) htotal
  obtain rfl : after = true := h
  exact (take_ends heartbeats.2 now .bundleSync).andThen (fun _ _ h => h) (fun _ _ h => h)
    (add_zero _).le

theorem takeDue_stops (now : Bundles.Time) :
    Stops Flagged (s.takeDue (T := T) now).run (Budget.mk 2 0 0 []) n requested := by
  have hsecond : ∀ heartbeats : List PollAction × Scheduler, Ends Flagged (do
      let syncs ← heartbeats.2.take now .bundleSync
      pure (heartbeats.1 ++ syncs.1, syncs.2) : LoopAction T (List PollAction × Scheduler)).run
      (Budget.mk 1 0 0 []) := fun heartbeats =>
    (take_ends heartbeats.2 now .bundleSync).andThen (fun _ _ h => h) (fun _ _ h => h)
      (add_zero _).le
  have htotal : Budget.mk 1 0 0 [] + Budget.mk 1 0 0 [] ≤ Budget.mk 2 0 0 [] :=
    mk_add_le le_rfl le_rfl le_rfl (List.Sublist.refl _)
  refine (take_stops s now .heartbeat).andThen (yieldsOk_trivial _)
    (fun _ heartbeats after _ h => ?_) (fun _ _ h => h) (fun heartbeats requested _ => ?_) htotal
  · obtain rfl : after = true := h
    exact hsecond heartbeats
  · have hsecond : Budget.mk 1 0 0 [] + 0 ≤ Budget.mk 2 0 0 [] :=
      (add_zero _).le.trans (mk_le one_le_two le_rfl le_rfl (List.Sublist.refl _))
    exact (take_stops heartbeats.2 now .bundleSync).andThen (yieldsOk_trivial _)
      (fun _ _ _ _ h => h) (fun _ _ h => h) (fun _ _ _ => windsDown_done) hsecond

/-- What the actions of a batch count for. -/
def batchTally (actions : List PollAction) : Budget := .mk actions.length 0 0 actions

theorem batchTally_cons (action : PollAction) (rest : List PollAction) :
    tally (.act action) + batchTally rest ≤ batchTally (action :: rest) :=
  mk_add_le (Nat.add_comm _ _).le le_rfl le_rfl (List.Sublist.refl _)

theorem batchTally_le {actions : List PollAction} (h : actions.Sublist batch) :
    batchTally actions ≤ Budget.mk 2 0 0 batch := mk_le h.length_le le_rfl le_rfl h

theorem runActions_ends (actions : List PollAction) :
    Ends Flagged (runActions (T := T) actions).run (batchTally actions) := by
  induction actions with
  | nil => exact (rfl : true = true)
  | cons action rest ih => exact ends_call (fun _ => ih) (batchTally_cons action rest)

theorem runActions_stops (actions : List PollAction) : ∀ requested,
    Stops Flagged (runActions (T := T) actions).run (batchTally actions) n requested := by
  induction actions with
  | nil => exact fun _ => windsDown_done
  | cons action rest ih =>
    have hrest : batchTally rest ≤ batchTally (action :: rest) :=
      (le_add_of_nonneg_left zero_le).trans (batchTally_cons action rest)
    exact fun _ => stops_call (fun _ _ => runActions_ends rest)
      (fun _ requested => (ih requested).mono hrest) (batchTally_cons action rest)

theorem batchOf_ends (taken : List PollAction × Scheduler)
    (hbatch : taken.1.Sublist batch) :
    Ends Flagged (do
      runActions taken.1
      pure taken.2 : LoopAction T Scheduler).run (Budget.mk 2 0 0 batch) :=
  (runActions_ends taken.1).andThen (fun _ _ h => h) (fun _ _ h => h)
    ((add_zero _).le.trans (batchTally_le hbatch))

/-- What the time of the batch is followed by. -/
def batchAt (now : Bundles.Time) : LoopAction T Scheduler := do
  let (due, s) ← s.takeDue now
  runActions due
  pure s

theorem batchAt_ends (now : Bundles.Time) :
    Ends Flagged (batchAt (T := T) s now).run (Budget.mk 4 0 0 batch) := by
  have htotal : Budget.mk 2 0 0 [] + Budget.mk 2 0 0 batch ≤ Budget.mk 4 0 0 batch :=
    mk_add_le le_rfl le_rfl le_rfl (List.Sublist.refl _)
  refine ((takeDue_ends s now).yields (takeDue_yields s now)).andThen (fun taken after h => ?_)
    (fun _ _ h => h.2) htotal
  obtain ⟨hbatch, hafter⟩ := h
  obtain rfl : after = true := hafter
  exact batchOf_ends taken (hbatch taken rfl)

theorem batchAt_stops (now : Bundles.Time) :
    Stops Flagged (batchAt (T := T) s now).run (Budget.mk 4 0 0 batch) n requested := by
  have htotal : Budget.mk 2 0 0 [] + Budget.mk 2 0 0 batch ≤ Budget.mk 4 0 0 batch :=
    mk_add_le le_rfl le_rfl le_rfl (List.Sublist.refl _)
  refine (takeDue_stops s now).andThen (takeDue_yields s now)
    (fun _ taken after hbatch h => ?_) (fun _ _ h => h) (fun taken requested hbatch => ?_) htotal
  · obtain rfl : after = true := h
    exact batchOf_ends taken hbatch
  · have hlast : batchTally taken.1 + 0 ≤ Budget.mk 4 0 0 batch := (add_zero _).le.trans
      ((batchTally_le hbatch).trans (mk_le (by decide) le_rfl le_rfl (List.Sublist.refl _)))
    exact (runActions_stops taken.1 requested).andThen (yieldsOk_trivial _) (fun _ _ _ _ h => h)
      (fun _ _ h => h) (fun _ _ _ => windsDown_done) hlast

/-- What follows the wait in a cycle. -/
def afterWait : LoopAction T Scheduler := do
  let now ← clockNow
  let (due, s) ← s.takeDue now
  runActions due
  pure s

theorem afterWait_ends : Ends Flagged (afterWait (T := T) s).run (Budget.mk 5 0 0 batch) := by
  have htotal : tally .now + Budget.mk 4 0 0 batch ≤ Budget.mk 5 0 0 batch :=
    mk_add_le le_rfl le_rfl le_rfl (List.Sublist.refl _)
  exact ends_call (batchAt_ends s) htotal

theorem afterWait_stops :
    Stops Flagged (afterWait (T := T) s).run (Budget.mk 5 0 0 batch) n requested := by
  have htotal : tally .now + Budget.mk 4 0 0 batch ≤ Budget.mk 5 0 0 batch :=
    mk_add_le le_rfl le_rfl le_rfl (List.Sublist.refl _)
  refine stops_call (fun _ => batchAt_ends s) (fun now requested => ?_) htotal
  exact (batchAt_stops s now).mono (mk_le (by decide) le_rfl le_rfl (List.Sublist.refl _))

theorem waitDue_ends :
    Ends Flagged (waitDue (T := T) sleeper.sleep s).run (Budget.mk 2 0 0 []) := by
  have htotal : tally .now + Budget.mk 1 0 0 [] ≤ Budget.mk 2 0 0 [] :=
    mk_add_le le_rfl le_rfl le_rfl (List.Sublist.refl _)
  refine ends_call (fun now => ?_) htotal
  dsimp only
  split
  · exact (sleep_ends sleeper _).post fun _ _ h => h.1
  · exact (rfl : true = true)

theorem waitDue_stops :
    Stops Flagged (waitDue (T := T) sleeper.sleep s).run (Budget.mk 3 sleeper.step 0 []) n
      requested := by
  have htotal : tally .now + Budget.mk 1 0 0 [] ≤ Budget.mk 3 sleeper.step 0 [] :=
    mk_add_le (by decide) (Nat.zero_le _) le_rfl (List.Sublist.refl _)
  refine stops_call (fun _ now => ?_) (fun now requested => ?_) htotal
  · dsimp only
    split
    · exact (sleep_ends sleeper _).post fun _ _ h => h.1
    · exact (rfl : true = true)
  · dsimp only
    split
    · exact (sleep_stops sleeper _ requested).post fun _ _ h => h.1
    · exact windsDown_done

theorem pollCycle_ends :
    Ends Flagged (pollCycle (T := T) sleeper.sleep s).run (Budget.mk 7 0 0 batch) := by
  have htotal : Budget.mk 2 0 0 [] + Budget.mk 5 0 0 batch ≤ Budget.mk 7 0 0 batch :=
    mk_add_le le_rfl le_rfl le_rfl (List.Sublist.refl _)
  refine (waitDue_ends sleeper s).andThen (fun _ after h => ?_) (fun _ _ h => h) htotal
  obtain rfl : after = true := h
  exact afterWait_ends s

theorem pollCycle_stops :
    Stops Flagged (pollCycle (T := T) sleeper.sleep s).run (Budget.mk 8 sleeper.step 0 batch) n
      requested := by
  have htotal : Budget.mk 3 sleeper.step 0 [] + Budget.mk 5 0 0 batch ≤
      Budget.mk 8 sleeper.step 0 batch :=
    mk_add_le le_rfl le_rfl le_rfl (List.Sublist.refl _)
  refine (waitDue_stops sleeper s).andThen (yieldsOk_trivial _) (fun _ _ after _ h => ?_)
    (fun _ _ h => h) (fun _ requested _ => ?_) htotal
  · obtain rfl : after = true := h
    exact afterWait_ends s
  · exact (afterWait_stops s).mono
      (mk_le (by decide) (Nat.zero_le _) le_rfl (List.Sublist.refl _))

/-- The loop of the daemon from some cycle on. -/
def pollLoopFrom (s : Scheduler) (cycle : UInt64) (fuel : Nat) : LoopAction T Scheduler :=
  runPolling sleeper.sleep (fun _ => notRequested) s cycle fuel

/-- The loop behind the check of a cycle. -/
def pollLoopBehind (s : Scheduler) (cycle : UInt64) (fuel : Nat) (requested : Bool) :
    LoopAction T Scheduler := do
  if !requested then
    let s ← pollCycle sleeper.sleep s
    pollLoopFrom sleeper s (cycle + 1) fuel
  else pure s

theorem pollLoopFrom_succ (cycle : UInt64) (fuel : Nat) :
    pollLoopFrom (T := T) sleeper s cycle (fuel + 1) =
      isRequested >>= pollLoopBehind sleeper s cycle fuel := by
  rw [pollLoopFrom, runPolling, notRequested, bind_assoc]
  rfl

/-- The loop asks before the cycle that follows the request. -/
theorem pollLoopFrom_ends (cycle : UInt64) (fuel : Nat) :
    Ends Flagged (pollLoopFrom (T := T) sleeper s cycle (fuel + 1)).run (Budget.mk 1 0 0 []) := by
  rw [pollLoopFrom_succ]
  exact check_ends (rfl : true = true)

theorem pollLoopBehind_ends (cycle : UInt64) (fuel : Nat) (seen : Bool) :
    Ends Flagged (pollLoopBehind (T := T) sleeper s cycle (fuel + 1) seen).run
      (Budget.mk 8 0 0 batch) := by
  have htotal : Budget.mk 7 0 0 batch + Budget.mk 1 0 0 [] ≤ Budget.mk 8 0 0 batch :=
    mk_add_le le_rfl le_rfl le_rfl (List.Sublist.refl _)
  cases seen with
  | true => exact (rfl : true = true)
  | false =>
    refine (pollCycle_ends sleeper s).andThen (fun next after h => ?_) (fun _ _ h => h) htotal
    obtain rfl : after = true := h
    exact pollLoopFrom_ends sleeper next _ fuel

theorem pollLoopFrom_stops (fuel : Nat) : ∀ (s : Scheduler) (cycle : UInt64) (requested : Bool)
    (n : Nat), n < fuel → Stops Flagged (pollLoopFrom (T := T) sleeper s cycle fuel).run
      (Budget.mk 9 sleeper.step 0 batch) n requested := by
  have hchecked : tally .isRequested + Budget.mk 8 0 0 batch ≤ Budget.mk 9 sleeper.step 0 batch :=
    mk_add_le le_rfl (Nat.zero_le _) le_rfl (List.Sublist.refl _)
  have hcycled : Budget.mk 8 sleeper.step 0 batch + Budget.mk 1 0 0 [] ≤
      Budget.mk 9 sleeper.step 0 batch :=
    mk_add_le le_rfl le_rfl le_rfl (List.Sublist.refl _)
  induction fuel with
  | zero => exact fun _ _ _ n hn => absurd hn (Nat.not_lt_zero n)
  | succ fuel ih =>
    intro s cycle requested n hn
    cases n with
    | zero => trivial
    | succ n =>
      -- The check is a call, so that the rest of the loop is still unrolled for what is left.
      have hfuel : n < fuel := Nat.lt_of_succ_lt_succ hn
      obtain ⟨more, rfl⟩ := Nat.exists_eq_succ_of_ne_zero (Nat.ne_zero_of_lt hfuel)
      rw [pollLoopFrom_succ]
      refine stops_first (pollLoopBehind_ends sleeper s cycle more) (fun seen requested => ?_)
        hchecked
      cases seen with
      | true => exact windsDown_done
      | false =>
        refine (pollCycle_stops sleeper s).andThen (yieldsOk_trivial _)
          (fun _ next after _ h => ?_) (fun _ _ h => h)
          (fun next requested _ => ih next _ requested n hfuel) hcycled
        obtain rfl : after = true := h
        exact pollLoopFrom_ends sleeper next _ more

end Polling

section Retrying

variable {requested : Bool} {n : Nat} (sleeper : InterruptibleSleeper)

/-- The retry loop of the daemon after some failures. -/
def retryLoopFrom (attempt : UInt32) (lastErr : Option Errors.Error) (fuel : Nat) :
    Action (loopSignature T) Errors.Error T :=
  retryWithBackoff notRequested
    (fun attempt => do
      let answer : Except Errors.Error T ← ask (.attempt attempt)
      Action.ofExcept answer)
    (fun attempt => do
      let delay : Nat ← ask (.backoffDelay attempt)
      sleeper.sleep delay)
    .enrollmentTransport attempt lastErr fuel

def pauseThenRetry (attempt : UInt32) (err : Errors.Error) (fuel : Nat) :
    Action (loopSignature T) Errors.Error T := do
  let delay : Nat ← ask (.backoffDelay attempt)
  sleeper.sleep delay
  retryLoopFrom sleeper attempt (some err) fuel

def retryBehindFailure (attempt : UInt32) (err : Errors.Error) (fuel : Nat) (requested : Bool) :
    Action (loopSignature T) Errors.Error T := do
  if !requested then pauseThenRetry sleeper attempt err fuel
  else throw err

def retryBehindAttempt (attempt : UInt32) (fuel : Nat) :
    Except Errors.Error T → Action (loopSignature T) Errors.Error T
  | .ok value => pure value
  | .error err => isRequested >>= retryBehindFailure sleeper attempt err fuel

def retryBehindCheck (attempt : UInt32) (lastErr : Option Errors.Error) (fuel : Nat)
    (requested : Bool) : Action (loopSignature T) Errors.Error T := do
  if !requested then
    let outcome ← ask (.attempt (nextAttempt attempt))
    retryBehindAttempt sleeper (nextAttempt attempt) fuel outcome
  else throw (lastErr.getD .enrollmentTransport)

theorem attempt_answer (attempt : UInt32) :
    (do
      let answer : Except Errors.Error T ← ask (.attempt attempt)
      Action.ofExcept answer : Action (loopSignature T) Errors.Error T).attempt =
      ask (T := T) (ε := Errors.Error) (.attempt attempt) := rfl

theorem retryLoopFrom_succ (attempt : UInt32) (lastErr : Option Errors.Error) (fuel : Nat) :
    retryLoopFrom (T := T) sleeper attempt lastErr (fuel + 1) =
      isRequested >>= retryBehindCheck sleeper attempt lastErr fuel := by
  rw [retryLoopFrom, retryWithBackoff]
  simp only [notRequested, bind_assoc, pure_bind, attempt_answer]
  refine congrArg _ (funext fun requested => ?_)
  cases requested with
  | true => rfl
  | false =>
    simp only [retryBehindCheck, Bool.not_false, if_true]
    refine congrArg _ (funext fun outcome => ?_)
    cases outcome with
    | ok value => rfl
    | error err =>
      simp only [retryBehindAttempt]
      refine congrArg _ (funext fun requested => ?_)
      cases requested with
      | true => rfl
      | false => rfl

theorem retryLoopFrom_ends (attempt : UInt32) (lastErr : Option Errors.Error) (fuel : Nat) :
    Ends Flagged (retryLoopFrom (T := T) sleeper attempt lastErr (fuel + 1)).run
      (Budget.mk 1 0 0 []) := by
  rw [retryLoopFrom_succ]
  exact check_ends (rfl : true = true)

theorem sleepThenRetry_ends (delay : Nat) (attempt : UInt32) (lastErr : Option Errors.Error)
    (fuel : Nat) :
    Ends Flagged (do
      sleeper.sleep delay
      retryLoopFrom sleeper attempt lastErr (fuel + 1) :
      Action (loopSignature T) Errors.Error T).run (Budget.mk 2 0 0 []) := by
  have htotal : Budget.mk 1 0 0 [] + Budget.mk 1 0 0 [] ≤ Budget.mk 2 0 0 [] :=
    mk_add_le le_rfl le_rfl le_rfl (List.Sublist.refl _)
  refine (sleep_ends sleeper delay).andThen (fun _ after h => ?_) (fun _ _ h => h.1) htotal
  obtain rfl : after = true := h.1
  exact retryLoopFrom_ends sleeper attempt lastErr fuel

theorem pauseThenRetry_ends (attempt : UInt32) (err : Errors.Error) (fuel : Nat) :
    Ends Flagged (pauseThenRetry (T := T) sleeper attempt err (fuel + 1)).run
      (Budget.mk 3 0 0 []) := by
  have htotal : tally (.backoffDelay attempt) + Budget.mk 2 0 0 [] ≤ Budget.mk 3 0 0 [] :=
    mk_add_le le_rfl le_rfl le_rfl (List.Sublist.refl _)
  exact ends_call (fun delay => sleepThenRetry_ends sleeper delay attempt _ fuel) htotal

/-- Behind a failure the loop asks again, and stops. -/
theorem retryBehindAttempt_ends (attempt : UInt32) (fuel : Nat)
    (outcome : Except Errors.Error T) :
    Ends Flagged (retryBehindAttempt sleeper attempt fuel outcome).run (Budget.mk 1 0 0 []) := by
  cases outcome with
  | ok value => exact (rfl : true = true)
  | error err => exact check_ends (rfl : true = true)

/-- The attempt whose check has passed is made. -/
theorem retryBehindCheck_ends (attempt : UInt32) (lastErr : Option Errors.Error) (fuel : Nat)
    (seen : Bool) :
    Ends Flagged (retryBehindCheck (T := T) sleeper attempt lastErr fuel seen).run
      (Budget.mk 2 0 1 []) := by
  have htotal : tally (.attempt (nextAttempt attempt)) + Budget.mk 1 0 0 [] ≤ Budget.mk 2 0 1 [] :=
    mk_add_le le_rfl le_rfl le_rfl (List.Sublist.refl _)
  cases seen with
  | true => exact (rfl : true = true)
  | false => exact ends_call (retryBehindAttempt_ends sleeper _ fuel) htotal

theorem retryBehindFailure_ends (attempt : UInt32) (err : Errors.Error) (fuel : Nat)
    (seen : Bool) :
    Ends Flagged (retryBehindFailure (T := T) sleeper attempt err (fuel + 1) seen).run
      (Budget.mk 3 0 0 []) := by
  cases seen with
  | true => exact (rfl : true = true)
  | false => exact pauseThenRetry_ends sleeper attempt err fuel

theorem retryLoopFrom_stops (fuel : Nat) : ∀ (attempt : UInt32) (lastErr : Option Errors.Error)
    (requested : Bool) (n : Nat), n < fuel →
    Stops Flagged (retryLoopFrom (T := T) sleeper attempt lastErr fuel).run
      (Budget.mk 4 sleeper.step 1 []) n requested := by
  have hchecked : tally .isRequested + Budget.mk 2 0 1 [] ≤ Budget.mk 4 sleeper.step 1 [] :=
    mk_add_le (by decide) (Nat.zero_le _) le_rfl (List.Sublist.refl _)
  have htried : Budget.mk 1 0 1 [] + Budget.mk 1 0 0 [] ≤ Budget.mk 4 sleeper.step 1 [] :=
    mk_add_le (by decide) (Nat.zero_le _) le_rfl (List.Sublist.refl _)
  have hfailed : tally .isRequested + Budget.mk 3 0 0 [] ≤ Budget.mk 4 sleeper.step 1 [] :=
    mk_add_le le_rfl (Nat.zero_le _) (Nat.zero_le _) (List.Sublist.refl _)
  have hdrawn : Budget.mk 1 0 0 [] + Budget.mk 2 0 0 [] ≤ Budget.mk 4 sleeper.step 1 [] :=
    mk_add_le (by decide) (Nat.zero_le _) (Nat.zero_le _) (List.Sublist.refl _)
  have hslept : Budget.mk 3 sleeper.step 0 [] + Budget.mk 1 0 0 [] ≤
      Budget.mk 4 sleeper.step 1 [] :=
    mk_add_le le_rfl le_rfl (Nat.zero_le _) (List.Sublist.refl _)
  induction fuel with
  | zero => exact fun _ _ _ n hn => absurd hn (Nat.not_lt_zero n)
  | succ fuel ih =>
    intro attempt lastErr requested n hn
    cases n with
    | zero => trivial
    | succ n =>
      have hfuel : n < fuel := Nat.lt_of_succ_lt_succ hn
      obtain ⟨more, rfl⟩ := Nat.exists_eq_succ_of_ne_zero (Nat.ne_zero_of_lt hfuel)
      rw [retryLoopFrom_succ]
      refine stops_first (retryBehindCheck_ends sleeper attempt lastErr _)
        (fun seen requested => ?_) hchecked
      cases seen with
      | true => exact windsDown_done
      | false =>
        refine stops_call (fun _ => retryBehindAttempt_ends sleeper _ _)
          (fun outcome requested => ?_) htried
        cases outcome with
        | ok value => exact windsDown_done
        | error err =>
          refine stops_call (fun _ => retryBehindFailure_ends sleeper _ err more)
            (fun seen requested => ?_) hfailed
          cases seen with
          | true => exact windsDown_done
          | false =>
            refine stops_call (fun _ delay => sleepThenRetry_ends sleeper delay _ _ more)
              (fun delay requested => ?_) hdrawn
            refine (sleep_stops sleeper delay requested).andThen (yieldsOk_trivial _)
              (fun _ _ after _ h => ?_) (fun _ _ h => h.1)
              (fun _ requested _ => ih _ _ requested n hfuel) hslept
            obtain rfl : after = true := h.1
            exact retryLoopFrom_ends sleeper _ _ more

end Retrying

section Calls

variable {ε : Type} {w w' : Bool} (sleeper : InterruptibleSleeper)

/-- A sleeper checks the flag and sleeps chunks of a step at most. -/
def Slices (sleeper : InterruptibleSleeper) (op : LoopOp) : Prop :=
  op = .isRequested ∨ ∃ chunk, op = .threadSleep chunk ∧ chunk ≤ sleeper.step

theorem sleep_calls (duration : Nat) :
    (sleeper.sleep duration : Action (loopSignature T) ε Unit).run.Calls (Slices sleeper) := by
  induction duration using Nat.strong_induction_on with
  | h duration ih =>
    rw [InterruptibleSleeper.sleep]
    split
    · trivial
    rename_i hduration
    have hshorter : duration - min duration sleeper.step < duration := by
      have hpositive := sleeper.positive
      omega
    refine calls_bind (calls_perform (Or.inl rfl)) fun requested => ?_
    split
    · trivial
    · refine calls_bind (calls_perform (Or.inr ⟨_, rfl, min_le_right _ _⟩)) fun _ => ?_
      exact ih _ hshorter

/-- Whatever the flag does, a sleeper comes to an end. -/
theorem sleep_within (duration : Nat) : ∀ requested,
    Within signalled tally (fun r _ => r = .ok ())
      (sleeper.sleep duration : Action (loopSignature T) ε Unit).run requested
      (.mk (2 * duration) duration 0 []) := by
  induction duration using Nat.strong_induction_on with
  | h duration ih =>
    intro requested
    rw [InterruptibleSleeper.sleep]
    split
    · exact (rfl : (Except.ok () : Except ε Unit) = .ok ())
    rename_i hduration
    have hpositive := sleeper.positive
    have hshorter : duration - min duration sleeper.step < duration := by omega
    have hslice : Budget.mk 1 (min duration sleeper.step) 0 [] +
        Budget.mk (2 * (duration - min duration sleeper.step))
          (duration - min duration sleeper.step) 0 [] ≤
        Budget.mk (2 * duration - 1) duration 0 [] :=
      mk_add_le (by omega) (by omega) le_rfl (List.Sublist.refl _)
    refine ⟨Budget.mk (2 * duration - 1) duration 0 [],
      mk_add_le (by omega) (Nat.zero_add _).le le_rfl (List.Sublist.refl _), ?_⟩
    intro (seen : Bool) after _
    cases seen with
    | true => exact (rfl : (Except.ok () : Except ε Unit) = .ok ())
    | false => exact ⟨_, hslice, fun _ after _ => ih _ hshorter after⟩

/-- A sleeper that no request reaches sleeps as long as it was asked to. -/
theorem sleep_exact (duration : Nat) : ∀ {trace : List (LoopEvent T Bool)} {w : Bool}
    {r : Except ε Unit},
    Exec signalled (sleeper.sleep duration : Action (loopSignature T) ε Unit).run w trace
      (some r) w' → (∀ e ∈ trace, e.after = false) → (spent tally trace).slept = duration := by
  induction duration using Nat.strong_induction_on with
  | h duration ih =>
    intro trace w r hexec hnever
    rw [InterruptibleSleeper.sleep] at hexec
    split at hexec
    · rename_i hzero
      obtain ⟨rfl, _⟩ := exec_pure hexec
      exact hzero.symm
    rename_i hduration
    have hpositive := sleeper.positive
    have hshorter : duration - min duration sleeper.step < duration := by omega
    rcases exec_perform_bind hexec with ⟨_, hnone, _⟩ | ⟨seen, w₁, rest, rfl, henv, hrest⟩
    · cases hnone
    have hchecked : w₁ = false := hnever _ (List.mem_cons_self ..)
    have hseen : seen ≠ true := fun h => Bool.false_ne_true (hchecked.symm.trans (henv.2.2 h))
    obtain rfl : seen = false := Bool.eq_false_iff.mpr hseen
    rcases exec_perform_bind hrest with ⟨_, hnone, _⟩ | ⟨answer, w₂, later, rfl, _, hlater⟩
    · cases hnone
    have hslept := ih _ hshorter hlater fun e he =>
      hnever e (List.mem_cons_of_mem _ (List.mem_cons_of_mem _ he))
    show 0 + (min duration sleeper.step + (spent tally later).slept) = duration
    omega

/-- A retry is made behind a check that it passed. -/
def CheckedFirst (past : List (LoopEvent T Bool)) (e : LoopEvent T Bool) : Prop :=
  ∀ attempt, e.op = .attempt attempt →
    ∃ before, past.getLast? = some ⟨before, .isRequested, (false : Bool), e.before⟩

theorem sleep_checked (duration : Nat) :
    Meets signalled CheckedFirst (fun _ _ => True)
      (sleeper.sleep duration : Action (loopSignature T) ε Unit).run
      (Returns (fun _ _ _ => True) fun _ _ _ => True) := by
  refine meets_keeps_action (sleep_calls sleeper duration) fun past v op answer v' hcall _ _ =>
    ⟨fun attempt hop => ?_, trivial⟩
  rcases hcall with hcall | ⟨chunk, hcall, _⟩
  · cases hcall.symm.trans hop
  · cases hcall.symm.trans hop

theorem isRequested_checked {P : Condition (loopSignature T) Bool} :
    Meets signalled CheckedFirst P (isRequested : Action (loopSignature T) ε Bool).run
      (Returns (fun _ _ _ => True) fun seen past v =>
        ∃ before, past.getLast? = some ⟨before, .isRequested, seen, v⟩) :=
  meets_perform fun _ v _ _ _ _ => ⟨nofun, v, List.getLast?_concat⟩

theorem retryLoopFrom_checked (fuel : Nat) : ∀ (attempt : UInt32) (lastErr : Option Errors.Error),
    Meets signalled CheckedFirst (fun _ _ => True)
      (retryLoopFrom (T := T) sleeper attempt lastErr fuel).run
      (Returns (fun _ _ _ => True) fun _ _ _ => True) := by
  induction fuel with
  | zero => exact fun _ _ => meets_running
  | succ fuel ih =>
    intro attempt lastErr
    rw [retryLoopFrom_succ]
    refine Meets.andThen isRequested_checked fun seen => ?_
    cases seen with
    | true => exact meets_throw fun _ _ _ => trivial
    | false =>
      refine Meets.andThen (meets_perform (M := fun _ _ _ => True) ?_) fun outcome => ?_
      · exact fun past v answer v' hlast _ => ⟨fun _ _ => hlast, trivial⟩
      cases outcome with
      | ok value => exact meets_pure fun _ _ _ => trivial
      | error err =>
        refine Meets.andThen isRequested_checked fun seen => ?_
        cases seen with
        | true => exact meets_throw fun _ _ _ => trivial
        | false =>
          refine Meets.andThen (meets_perform (M := fun _ _ _ => True) ?_) fun delay => ?_
          · exact fun past v answer v' _ _ => ⟨nofun, trivial⟩
          exact (sleep_checked sleeper delay).andThen fun _ => ih _ _

/-- Whatever follows the request is behind it. -/
theorem requested_behind {α : Type} {p : Program (loopSignature T) α}
    {past rest : List (LoopEvent T Bool)} {e : LoopEvent T Bool} {result : Option α}
    (h : Exec signalled p w (past ++ e :: rest) result w') (he : e.after = true) :
    ∀ x ∈ rest, x.before = true := by
  obtain ⟨_, q, hrest⟩ := h.cut_event
  have hkept := hrest.invariant (I := fun v => v = true) (fun x hx => (hrest.event_env x hx).1) he
  exact fun x hx => (hkept.2 x hx).1

/-- An attempt that follows the request is the next call behind a check that had passed. -/
theorem attempt_behind_request {fuel : Nat} {past first last : List (LoopEvent T Bool)}
    {e x : LoopEvent T Bool} {result : Option (Except Errors.Error T)} {attempt : UInt32}
    (h : Exec signalled (retryLoop sleeper fuel).run w (past ++ e :: (first ++ x :: last)) result
      w') (he : e.after = true) (hx : x.op = .attempt attempt) :
    first = [] ∧ ∃ before, e = ⟨before, .isRequested, (false : Bool), true⟩ := by
  have hbehind := requested_behind h he
  have hevents := h.event_env
  have hthrough := (retryLoopFrom_checked sleeper fuel 0 none [] w _ _ _ trivial h).1
  rw [← List.cons_append, ← List.append_assoc] at hthrough
  obtain ⟨before, hlast⟩ := hthrough.middle attempt hx
  have hxbefore : x.before = true := hbehind x (by simp)
  rw [hxbefore, List.nil_append] at hlast
  rcases List.eq_nil_or_concat first with rfl | ⟨first, y, rfl⟩
  · rw [List.getLast?_concat] at hlast
    exact ⟨rfl, before, Option.some.inj hlast⟩
  · rw [List.concat_eq_append, ← List.cons_append, ← List.append_assoc,
      List.getLast?_concat] at hlast
    obtain rfl := Option.some.inj hlast
    have hbefore : before = true := hbehind ⟨before, .isRequested, (false : Bool), true⟩ (by simp)
    have henv := hevents ⟨before, .isRequested, (false : Bool), true⟩ (by simp)
    exact absurd (henv.2.1 hbefore) Bool.false_ne_true

end Calls

/-- What a loop may still do once a shutdown is requested. Every round makes a call, so a loop that
was unrolled for more rounds than it made calls is not cut short. -/
structure Prompt {ε α : Type} (loop : Nat → Action (loopSignature T) ε α) (allowance : Budget) :
    Prop where
  /-- A loop that starts behind the request makes one check. -/
  already : ∀ fuel, Ends Flagged (loop (fuel + 1)).run (.mk 1 0 0 [])
  /-- Whatever is answered, the loop ends. -/
  ends : ∀ fuel w past e q w', Leads signalled (loop fuel).run w (past ++ [e]) q w' →
    e.after = true → past.length + 1 < fuel →
    ∃ left, tally e.op + left ≤ allowance ∧ Within signalled tally Flagged q true left
  /-- The call during or after which the request came and all that follow it. -/
  spends : ∀ fuel w past e rest result w',
    Exec signalled (loop fuel).run w (past ++ e :: rest) result w' →
    e.after = true → past.length + 1 < fuel → spent tally (e :: rest) ≤ allowance

theorem prompt_of_stops {ε α : Type} {loop : Nat → Action (loopSignature T) ε α}
    {allowance : Budget} (halready : ∀ fuel, Ends Flagged (loop (fuel + 1)).run (.mk 1 0 0 []))
    (hstops : ∀ fuel w n, n < fuel → Stops Flagged (loop fuel).run allowance n w) :
    Prompt loop allowance := by
  have hends : ∀ fuel w past e q w', Leads signalled (loop fuel).run w (past ++ [e]) q w' →
      e.after = true → past.length + 1 < fuel →
      ∃ left, tally e.op + left ≤ allowance ∧ Within signalled tally Flagged q true left := by
    intro fuel w past e q w' hleads he hfuel
    obtain rfl : w' = true := (leads_after hleads).trans he
    exact (hstops fuel w _ hfuel).ends hleads (Nat.lt_succ_self _) rfl
  refine ⟨halready, hends, fun fuel w past e rest result w' hexec he hfuel => ?_⟩
  rw [List.append_cons] at hexec
  obtain ⟨q, v, hleads, hrest⟩ := exec_leads hexec
  obtain ⟨left, hcost, hwithin⟩ := hends fuel w past e q v hleads he hfuel
  obtain rfl : v = true := (leads_after hleads).trans he
  calc spent tally (e :: rest)
      = tally e.op + spent tally rest := List.sum_cons
    _ ≤ tally e.op + left := add_le_add_right (hwithin.spent_le hrest).1 _
    _ ≤ allowance := hcost

/-- No attempt follows the request, except as the next call behind a check that had passed. -/
def OnlyChecked {ε α : Type} (loop : Nat → Action (loopSignature T) ε α) : Prop :=
  ∀ fuel w past e first x last result w' attempt,
    Exec signalled (loop fuel).run w (past ++ e :: (first ++ x :: last)) result w' →
    e.after = true → x.op = .attempt attempt →
    first = [] ∧ ∃ before, e = ⟨before, .isRequested, (false : Bool), true⟩

/-- A sleeper always comes to an end; that no request reaches, it sleeps chunks of at most a step
which add up to what it was asked for. -/
def SleepsExactly (T ε : Type) (sleeper : InterruptibleSleeper) : Prop :=
  ∀ duration,
    (∀ requested, Within signalled tally (fun r _ => r = .ok ())
      (sleeper.sleep duration : Action (loopSignature T) ε Unit).run requested
      (.mk (2 * duration) duration 0 [])) ∧
    ∀ trace result w',
      Exec signalled (sleeper.sleep duration : Action (loopSignature T) ε Unit).run false trace
        result w' → (∀ e ∈ trace, e.after = false) →
      (∀ e ∈ trace, Slices sleeper e.op) ∧
      ∀ r, result = some r → r = .ok () ∧ (spent tally trace).slept = duration

/-- Whenever a shutdown is requested, both loops of the daemon sleep for one step at most before
they end. The poll loop performs what is left of one batch, the retry loop an attempt whose check
had passed. -/
theorem shutdown_prompt (ε : Type) (sleeper : InterruptibleSleeper) (s : Scheduler) :
    Prompt (runPollLoop (T := T) sleeper s)
        (.mk 9 sleeper.step 0 [.heartbeat, .bundleSync]) ∧
      Prompt (retryLoop (T := T) sleeper) (.mk 4 sleeper.step 1 []) ∧
      OnlyChecked (retryLoop (T := T) sleeper) ∧ SleepsExactly T ε sleeper := by
  refine ⟨?_, ?_, ?_, fun duration => ⟨sleep_within sleeper duration, ?_⟩⟩
  · exact prompt_of_stops (pollLoopFrom_ends sleeper s 0)
      fun fuel w n hn => pollLoopFrom_stops sleeper fuel s 0 w n hn
  · exact prompt_of_stops (retryLoopFrom_ends sleeper 0 none)
      fun fuel w n hn => retryLoopFrom_stops sleeper fuel 0 none w n hn
  · exact fun _ _ _ _ _ _ _ _ _ _ h he hx => attempt_behind_request sleeper h he hx
  · intro trace result w' hexec hnever
    refine ⟨hexec.event_calls (sleep_calls sleeper duration), ?_⟩
    rintro r rfl
    exact ⟨((sleep_within sleeper duration false).spent_le hexec).2 r rfl,
      sleep_exact sleeper duration hexec hnever⟩

/-- The attempt is made although the request came right behind its check. -/
example : Exec signalled (retryLoop (T := Unit) .new 3).run false
    [⟨false, .isRequested, (false : Bool), true⟩, ⟨true, .attempt 1, .ok (), true⟩]
    (some (.ok ())) true :=
  .step ⟨nofun, nofun, nofun⟩ (.step ⟨fun _ => rfl, trivial⟩ (.finished _ _))

end MayflyAgent.Shutdowns
