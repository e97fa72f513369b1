import MayflyAgent.Contracts
import MayflyAgent.Scheduling
import MayflyAgent.Budgets
import Mathlib.Tactic.Ring
import Mathlib.Tactic.Linarith
import Mathlib.Algebra.Order.Ring.Int
import Mathlib.Logic.Function.Basic

/-!
How long the poll loop sleeps. The events of a run are entered in a timetable, which tells for
either cadence from which clock reading it was last scheduled and what delay was drawn for it.
A sleep lasts from the last reading to the earlier of the two due times. It is no longer than a
cadence when the readings never go back, but a clock that is set back by an hour lets it last an
hour more. While the clock goes on, the loop does not sleep past the due time of a cadence before it
has executed it.
-/
namespace MayflyAgent.Timetables

open Programs Contracts Budgets Bundles Scheduling
open Heartbeats (PollAction)

variable {T W : Type}

/-- What the events of a run say about its schedule. -/
structure Timetable where
  /-- the last clock reading -/
  reading : Time
  /-- the reading from which a cadence was last scheduled, and the delay drawn for it -/
  scheduled : PollAction → Time
  delay : PollAction → Nat
  /-- the actions that were due at the last reading -/
  due : List PollAction
  /-- the actions executed in this cycle, and the readings at which each was taken in this run -/
  done : List PollAction
  taken : PollAction → List Time

namespace Timetable

def blank : Timetable where
  reading := 0
  scheduled := fun _ => 0
  delay := fun _ => 0
  due := []
  done := []
  taken := fun _ => []

def dueTime (t : Timetable) (action : PollAction) : Time := t.scheduled action + t.delay action

def nextDue (t : Timetable) : Time := min (t.dueTime .heartbeat) (t.dueTime .bundleSync)

def dueAt (t : Timetable) (now : Time) : List PollAction :=
  [.heartbeat, .bundleSync].filter fun action => t.dueTime action ≤ now

def next (t : Timetable) (op : LoopOp) (answer : op.Answer T) : Timetable :=
  match op, answer with
  | .now, (reading : Time) => { t with reading := reading, due := t.dueAt reading }
  | .nextDelay action _, (delay : Nat) => { t with
      scheduled := Function.update t.scheduled action t.reading
      delay := Function.update t.delay action delay }
  | .act action, _ => { t with
      done := t.done ++ [action]
      taken := Function.update t.taken action (t.taken action ++ [t.reading]) }
  | .shouldContinue _, _ => { t with done := [] }
  | _, _ => t

end Timetable

/-- The timetable behind these events. -/
def timetable (past : List (LoopEvent T W)) : Timetable :=
  past.foldl (fun t e => t.next e.op e.answer) Timetable.blank

@[simp] theorem timetable_append (past : List (LoopEvent T W)) (v v' : W) (op : LoopOp)
    (answer : op.Answer T) :
    timetable (past ++ [⟨v, op, answer, v'⟩]) = (timetable past).next op answer := by
  simp [timetable]

/-- No clock reading is before the one before. -/
def NeverBack (past : List (LoopEvent T W)) (e : LoopEvent T W) : Prop :=
  match e.op, e.answer with
  | .now, (reading : Time) => past ≠ [] → (timetable past).reading ≤ reading
  | _, _ => True

instance (past : List (LoopEvent T W)) (e : LoopEvent T W) : Decidable (NeverBack past e) := by
  obtain ⟨v, op, answer, v'⟩ := e
  cases op <;> unfold NeverBack <;> infer_instance

/-- The longest delay of either cadence. -/
def largestDelay (heartbeat sync : JitteredInterval) : ℚ := max heartbeat.largest sync.largest

/-- The last clock reading. -/
def Reads (past : List (LoopEvent T W)) (reading : Time) : Prop :=
  ∃ front v v' behind, past = front ++ ⟨v, .now, reading, v'⟩ :: behind ∧
    ∀ e ∈ behind, e.op ≠ .now

/-- The last delay that was drawn for the action, and the clock reading in front of the draw. -/
def Scheduled (past : List (LoopEvent T W)) (action : PollAction) (booked : Time) (delay : Nat) :
    Prop :=
  ∃ front v v' interval behind,
    past = front ++ ⟨v, .nextDelay action interval, delay, v'⟩ :: behind ∧
    Reads front booked ∧ ∀ e ∈ behind, ∀ interval, e.op ≠ .nextDelay action interval

/-- Since the action was last scheduled, the clock has gone back by no more than the drawn delay
leaves of the bound. -/
def SetBackWithin (past : List (LoopEvent T W)) (action : PollAction) (bound : ℚ) : Prop :=
  ∃ booked reading delay, Scheduled past action booked delay ∧ Reads past reading ∧
    ((booked - reading : ℤ) : ℚ) ≤ bound - delay

/-- From this time on the clock goes on, and no slower than the loop sleeps. -/
def GoesOn : Time → List (LoopEvent T W) → Prop
  | _, [] => True
  | time, e :: rest =>
    match e.op, e.answer with
    | .now, (reading : Time) => time ≤ reading ∧ GoesOn reading rest
    | .sleep duration, _ => GoesOn (time + duration) rest
    | _, _ => GoesOn time rest

instance decidableGoesOn : ∀ (time : Time) (events : List (LoopEvent T W)),
    Decidable (GoesOn time events)
  | _, [] => isTrue trivial
  | time, ⟨_, op, answer, _⟩ :: rest => by
    have hrest := fun time => decidableGoesOn time rest
    cases op <;> unfold GoesOn <;> infer_instance

def sleepOf : LoopOp → Nat
  | .sleep duration => duration
  | _ => 0

/-- How long the loop sleeps in all. -/
def slept (events : List (LoopEvent T W)) : Nat := spent (S := loopSignature T) sleepOf events

/-- The rounding of a delay did not take it beyond the jitter. -/
def Unrounded (e : LoopEvent T W) : Prop :=
  match e.op, e.answer with
  | .nextDelay _ interval, (delay : Nat) => (delay : ℚ) ≤ interval.largest
  | _, _ => True

instance (e : LoopEvent T W) : Decidable (Unrounded e) := by
  obtain ⟨v, op, answer, v'⟩ := e
  cases op <;> unfold Unrounded <;> infer_instance

theorem largestDelay_nonneg (heartbeat sync : JitteredInterval) :
    0 ≤ largestDelay heartbeat sync := by
  refine le_max_of_le_left (mul_nonneg (Nat.cast_nonneg _) ?_)
  have hratio := heartbeat.nonneg
  linarith

def SleepsAtMost (trace : List (LoopEvent T W)) (bound : ℚ) : Prop :=
  ∀ e ∈ trace, ∀ duration, e.op = .sleep duration → (duration : ℚ) ≤ bound

def intervalOf (heartbeat sync : JitteredInterval) : PollAction → JitteredInterval
  | .heartbeat => heartbeat
  | .bundleSync => sync

/-- The loop with a sleeper and a predicate that may be any. -/
def pollingLoop (heartbeat sync : JitteredInterval) (fuel : Nat) : LoopAction T Scheduler :=
  startPolling (fun duration => ask (.sleep duration)) (fun cycle => ask (.shouldContinue cycle))
    heartbeat sync fuel

section Rules

variable {env : Environment (loopSignature T) W}
  {E : List (LoopEvent T W) → LoopEvent T W → Prop} {P : Condition (loopSignature T) W}

/-- Nothing is said about a run that panics. -/
def Panics (_ : Panic) : Condition (loopSignature T) W := fun _ _ => True

theorem dueFrom_meets {now : Time} {action : PollAction} {interval : JitteredInterval}
    {Q : Time → Condition (loopSignature T) W}
    (h : ∀ past w (delay : Nat) w', P past w → env w (.nextDelay action interval) delay w' →
      E past ⟨w, .nextDelay action interval, delay, w'⟩ ∧
        Q (now + delay) (past ++ [⟨w, .nextDelay action interval, delay, w'⟩]) w') :
    Meets env E P (dueFrom now action interval).run (Returns Panics Q) := by
  refine meets_ask fun past w delay w' hP henv => ?_
  obtain ⟨hevent, hQ⟩ := h past w delay w' hP henv
  refine ⟨hevent, ?_⟩
  unfold addDuration
  split
  · exact hQ
  · trivial

theorem take_meets {s : Scheduler} {now : Time} {action : PollAction}
    {Q : List PollAction × Scheduler → Condition (loopSignature T) W}
    (hskip : ∀ past w, P past w → now < s.dueOf action → Q ([], s) past w)
    (htake : ∀ past w (delay : Nat) w', P past w → s.dueOf action ≤ now →
      env w (.nextDelay action (s.interval action)) delay w' →
      E past ⟨w, .nextDelay action (s.interval action), delay, w'⟩ ∧
        Q ([action], s.setDue action (now + delay))
          (past ++ [⟨w, .nextDelay action (s.interval action), delay, w'⟩]) w') :
    Meets env E P (s.take now action).run (Returns Panics Q) := by
  unfold Scheduler.take
  split
  · rename_i hdue
    refine Meets.andThen (dueFrom_meets (Q := fun due past w => Q ([action], s.setDue action due)
      past w) fun past w delay w' hP henv => htake past w delay w' hP hdue henv) fun due => ?_
    exact meets_pure fun _ _ hQ => hQ
  · rename_i hlater
    exact meets_pure fun past w hP => hskip past w hP (not_le.mp hlater)

/-- What holds at the head of the loop is restored by every cycle. -/
theorem runPolling_meets {sleep : Nat → LoopAction T Unit}
    {shouldContinue : UInt64 → LoopAction T Bool}
    {Ready Going : Scheduler → Condition (loopSignature T) W}
    (hcheck : ∀ s cycle, Meets env E (Ready s) (shouldContinue cycle).run
      (Returns Panics fun _ => Going s))
    (hcycle : ∀ s, Meets env E (Going s) (pollCycle sleep s).run (Returns Panics Ready))
    (fuel : Nat) : ∀ (s : Scheduler) (cycle : UInt64),
    Meets env E (Ready s) (runPolling sleep shouldContinue s cycle fuel).run
      (Returns Panics Going) := by
  induction fuel with
  | zero => exact fun _ _ => meets_running
  | succ fuel ih =>
    intro s cycle
    refine Meets.andThen (hcheck s cycle) fun going => ?_
    split
    · exact Meets.andThen (hcycle s) fun s' => ih s' _
    · exact meets_pure fun _ _ h => h

end Rules

section Entries

variable {past events : List (LoopEvent T W)} {e : LoopEvent T W} {action : PollAction}
  {reading booked : Time} {delay : Nat} {v v' : W}

theorem Reads.append (h : Reads past reading) (he : e.op ≠ .now) :
    Reads (past ++ [e]) reading := by
  obtain ⟨front, u, u', behind, rfl, hbehind⟩ := h
  refine ⟨front, u, u', behind ++ [e], by simp, ?_⟩
  exact List.forall_mem_append.mpr ⟨hbehind, List.forall_mem_singleton.mpr he⟩

theorem reads_now : Reads (past ++ [⟨v, .now, reading, v'⟩]) reading :=
  ⟨past, v, v', [], rfl, by simp⟩

theorem Scheduled.append (h : Scheduled past action booked delay)
    (he : ∀ interval, e.op ≠ .nextDelay action interval) :
    Scheduled (past ++ [e]) action booked delay := by
  obtain ⟨front, u, u', interval, behind, rfl, hreads, hbehind⟩ := h
  refine ⟨front, u, u', interval, behind ++ [e], by simp, hreads, ?_⟩
  exact List.forall_mem_append.mpr ⟨hbehind, List.forall_mem_singleton.mpr he⟩

theorem scheduled_draw {interval : JitteredInterval} (h : Reads past booked) :
    Scheduled (past ++ [⟨v, .nextDelay action interval, delay, v'⟩]) action booked delay :=
  ⟨past, v, v', interval, [], rfl, h, by simp⟩

theorem timetable_extend : timetable (past ++ events) =
    events.foldl (fun t e => t.next e.op e.answer) (timetable past) := List.foldl_append ..

/-- Without another reading the timetable keeps the last one. -/
theorem foldl_reading (t : Timetable) (h : ∀ e ∈ events, e.op ≠ .now) :
    (events.foldl (fun t e => t.next e.op e.answer) t).reading = t.reading := by
  induction events generalizing t with
  | nil => rfl
  | cons e events ih =>
    obtain ⟨he, hevents⟩ := List.forall_mem_cons.mp h
    refine (ih _ hevents).trans ?_
    obtain ⟨u, op, answer, u'⟩ := e
    cases op <;> first | rfl | exact absurd rfl he

/-- Without another draw for it the timetable keeps how a cadence was scheduled. -/
theorem foldl_scheduled (t : Timetable)
    (h : ∀ e ∈ events, ∀ interval, e.op ≠ .nextDelay action interval) :
    (events.foldl (fun t e => t.next e.op e.answer) t).scheduled action = t.scheduled action ∧
      (events.foldl (fun t e => t.next e.op e.answer) t).delay action = t.delay action := by
  induction events generalizing t with
  | nil => exact ⟨rfl, rfl⟩
  | cons e events ih =>
    obtain ⟨he, hevents⟩ := List.forall_mem_cons.mp h
    obtain ⟨hscheduled, hdelay⟩ := ih (t.next e.op e.answer) hevents
    obtain ⟨u, op, answer, u'⟩ := e
    cases op with
    | nextDelay other interval =>
      have hother : action ≠ other := by
        rintro rfl
        exact he interval rfl
      exact ⟨hscheduled.trans (Function.update_of_ne hother ..),
        hdelay.trans (Function.update_of_ne hother ..)⟩
    | _ => exact ⟨hscheduled, hdelay⟩

theorem Reads.eq (h : Reads past reading) : (timetable past).reading = reading := by
  obtain ⟨front, u, u', behind, rfl, hbehind⟩ := h
  rw [List.append_cons, timetable_extend, foldl_reading _ hbehind, timetable_append]
  rfl

theorem Scheduled.eq (h : Scheduled past action booked delay) :
    (timetable past).scheduled action = booked ∧ (timetable past).delay action = delay := by
  obtain ⟨front, u, u', interval, behind, rfl, hreads, hbehind⟩ := h
  obtain ⟨hscheduled, hdelay⟩ := foldl_scheduled (timetable (front ++ [_])) hbehind
  rw [List.append_cons, timetable_extend, hscheduled, hdelay, timetable_append, ← hreads.eq]
  exact ⟨Function.update_self .., Function.update_self ..⟩

end Entries

def isDraw (action : PollAction) : LoopOp → Bool
  | .nextDelay other _ => decide (other = action)
  | _ => false

def isExecution (action : PollAction) : LoopOp → Bool
  | .act other => decide (other = action)
  | _ => false

/-- What `Timetable.next` enters. -/
def isEntered : LoopOp → Bool
  | .now | .nextDelay _ _ | .act _ => true
  | _ => false

section Sleeps

variable (heartbeat sync : JitteredInterval)

/-- The bookings of the timetable lie behind its reading, unless the clock went back. -/
def Behind (past : List (LoopEvent T W)) : Prop :=
  Throughout NeverBack [] past → ∀ action,
    (timetable past).scheduled action ≤ (timetable past).reading

/-- Both cadences are scheduled, and what was taken is executed, apart from what is pending. -/
structure Booked (pending : List PollAction) (past : List (LoopEvent T W)) : Prop where
  reads : Reads past (timetable past).reading
  scheduled : ∀ action,
    Scheduled past action ((timetable past).scheduled action) ((timetable past).delay action)
  drawn : ∀ e ∈ past, ∀ action interval, e.op = .nextDelay action interval →
    interval = intervalOf heartbeat sync action
  behind : Behind past
  balanced : ∀ action, past.countP (fun e => isDraw action e.op) =
    past.countP (fun e => isExecution action e.op) + pending.count action + 1

structure Agrees (s : Scheduler) (pending : List PollAction) (past : List (LoopEvent T W)) : Prop
    extends Booked heartbeat sync pending past where
  interval : ∀ action, s.interval action = intervalOf heartbeat sync action
  due : ∀ action, s.dueOf action = (timetable past).dueTime action

/-- A sleep follows a reading, and lasts from there to the earlier due time. -/
def SleepsUntilDue (past : List (LoopEvent T W)) (e : LoopEvent T W) : Prop :=
  ∀ duration, e.op = .sleep duration → Booked heartbeat sync [] past ∧
    (duration : ℤ) = (timetable past).nextDue - (timetable past).reading ∧
    ∃ front v v', past = front ++ [⟨v, .now, (timetable past).reading, v'⟩]

variable {heartbeat sync} {s : Scheduler} {pending : List PollAction}
  {past : List (LoopEvent T W)} {v v' : W}

theorem Agrees.nextDue (h : Agrees heartbeat sync s pending past) :
    s.nextDue = (timetable past).nextDue := by
  show min (s.dueOf .heartbeat) (s.dueOf .bundleSync) = _
  rw [h.due, h.due]
  rfl

theorem Behind.append {op : LoopOp} {answer : op.Answer T} (h : Behind past)
    (hscheduled : ∀ action, ((timetable past).next op answer).scheduled action =
      (timetable past).scheduled action)
    (hreading : NeverBack past ⟨v, op, answer, v'⟩ →
      (timetable past).reading ≤ ((timetable past).next op answer).reading) :
    Behind (past ++ [⟨v, op, answer, v'⟩]) := by
  intro hback action
  obtain ⟨hpast, hevent, _⟩ := throughout_append.mp hback
  rw [timetable_append, hscheduled]
  exact (h hpast action).trans (hreading hevent)

/-- An event that is not entered leaves the two in agreement. -/
theorem Agrees.next {op : LoopOp} {answer : op.Answer T} (h : Agrees heartbeat sync s pending past)
    (hop : isEntered op = false) :
    Agrees heartbeat sync s pending (past ++ [⟨v, op, answer, v'⟩]) where
  reads := by
    have hreading : ((timetable past).next op answer).reading = (timetable past).reading := by
      cases op <;> first | rfl | cases hop
    rw [timetable_append, hreading]
    exact h.reads.append (by rintro rfl; cases hop)
  scheduled := fun action => by
    have hentries : ((timetable past).next op answer).scheduled = (timetable past).scheduled ∧
        ((timetable past).next op answer).delay = (timetable past).delay := by
      cases op <;> first | exact ⟨rfl, rfl⟩ | cases hop
    rw [timetable_append, hentries.1, hentries.2]
    exact (h.scheduled action).append (by rintro interval rfl; cases hop)
  drawn := List.forall_mem_append.mpr ⟨h.drawn, List.forall_mem_singleton.mpr (by
    rintro action interval rfl
    cases hop)⟩
  behind := h.behind.append (fun action => by cases op <;> first | rfl | cases hop) fun _ => by
    cases op <;> first | exact le_refl _ | cases hop
  balanced := fun action => by
    have hneither : isDraw action op = false ∧ isExecution action op = false := by
      cases op <;> first | exact ⟨rfl, rfl⟩ | cases hop
    simpa [hneither] using h.balanced action
  interval := h.interval
  due := fun action => by
    rw [h.due, timetable_append]
    cases op <;> first | rfl | cases hop

theorem Agrees.now {now : Time} (h : Agrees heartbeat sync s pending past) :
    Agrees heartbeat sync s pending (past ++ [⟨v, .now, now, v'⟩]) where
  reads := by
    rw [timetable_append]
    exact reads_now
  scheduled := fun action => by
    rw [timetable_append]
    exact (h.scheduled action).append (by simp)
  drawn := List.forall_mem_append.mpr ⟨h.drawn, by simp⟩
  behind := h.behind.append (fun _ => rfl) fun hback => hback fun hnil => by
    obtain ⟨front, _, _, behind, hpast, _⟩ := h.reads
    simp [hnil] at hpast
  balanced := fun action => by simpa [isDraw, isExecution] using h.balanced action
  interval := h.interval
  due := fun action => by
    rw [h.due, timetable_append]
    rfl

/-- A pending action is executed. -/
theorem Agrees.executed {action : PollAction} {answer : Except Errors.Error Unit}
    (h : Agrees heartbeat sync s (action :: pending) past) :
    Agrees heartbeat sync s pending (past ++ [⟨v, .act action, answer, v'⟩]) where
  reads := by
    rw [timetable_append]
    exact h.reads.append (by simp)
  scheduled := fun other => by
    rw [timetable_append]
    exact (h.scheduled other).append (by simp)
  drawn := List.forall_mem_append.mpr ⟨h.drawn, by simp⟩
  behind := h.behind.append (fun _ => rfl) fun _ => le_refl _
  balanced := fun other => by
    have hcounts := h.balanced other
    rw [List.count_cons] at hcounts
    by_cases hother : action = other
    · simp_all [isDraw, isExecution]
      omega
    · simp_all [isDraw, isExecution]
  interval := h.interval
  due := fun other => by
    rw [h.due, timetable_append]
    rfl

/-- A cadence that is booked from the last reading is to be executed. -/
theorem Agrees.booked {action : PollAction} {delay : Nat}
    (h : Agrees heartbeat sync s pending past) :
    Agrees heartbeat sync (s.setDue action ((timetable past).reading + delay)) (pending ++ [action])
      (past ++ [⟨v, .nextDelay action (s.interval action), delay, v'⟩]) where
  reads := by
    rw [timetable_append]
    exact h.reads.append (by simp)
  scheduled := fun other => by
    rw [timetable_append]
    by_cases hother : other = action
    · subst hother
      simpa [Timetable.next] using scheduled_draw h.reads
    · simpa [Timetable.next, Function.update_of_ne hother] using
        (h.scheduled other).append (by simp [Ne.symm hother])
  drawn := List.forall_mem_append.mpr ⟨h.drawn, List.forall_mem_singleton.mpr (by
    rintro _ _ ⟨⟩
    exact h.interval action)⟩
  behind := by
    intro hback other
    obtain ⟨hpast, _⟩ := throughout_append.mp hback
    have hbehind := h.behind hpast other
    rw [timetable_append]
    by_cases hother : other = action
    · subst hother
      simp [Timetable.next]
    · simpa [Timetable.next, Function.update_of_ne hother] using hbehind
  balanced := fun other => by
    have hcounts := h.balanced other
    by_cases hother : action = other
    · simp_all [isDraw, isExecution]
      omega
    · simp_all [isDraw, isExecution]
  interval := fun other => by
    rw [← h.interval other]
    cases action <;> rfl
  due := by
    intro other
    have hdue := h.due other
    rw [timetable_append]
    cases action <;> cases other <;>
      simp_all [Timetable.next, Timetable.dueTime, Scheduler.setDue, Scheduler.dueOf]

variable {env : Environment (loopSignature T) W}

theorem waitDue_meets (s : Scheduler) :
    Meets env (SleepsUntilDue heartbeat sync) (fun past _ => Agrees heartbeat sync s [] past)
      (waitDue (T := T) (fun duration => ask (.sleep duration)) s).run
      (Returns Panics fun _ past _ => Agrees heartbeat sync s [] past) := by
  refine Meets.andThen (meets_perform (M := fun (now : Time) past _ =>
    Agrees heartbeat sync s [] past ∧ (timetable past).reading = now ∧
      ∃ front v v', past = front ++ [⟨v, .now, now, v'⟩])
    fun past w now w' h _ => ⟨nofun, h.now, by rw [timetable_append]; rfl, past, w, w', rfl⟩)
    fun now => ?_
  dsimp only
  split
  · rename_i hwait
    refine meets_perform fun past w answer w' h _ => ⟨?_, h.1.next rfl⟩
    obtain ⟨hagrees, hreading, hlast⟩ := h
    rintro duration ⟨⟩
    refine ⟨hagrees.toBooked, ?_, hreading ▸ hlast⟩
    rw [← hagrees.nextDue, hreading]
    exact Int.toNat_of_nonneg hwait.le
  · exact meets_pure fun _ _ h => h.1

theorem take_agrees (s : Scheduler) (pending : List PollAction) (now : Time) (action : PollAction) :
    Meets env (SleepsUntilDue heartbeat sync)
      (fun past _ => Agrees heartbeat sync s pending past ∧ (timetable past).reading = now)
      (s.take (T := T) now action).run
      (Returns Panics fun taken past _ => Agrees heartbeat sync taken.2 (pending ++ taken.1) past ∧
        (timetable past).reading = now) := by
  refine take_meets (fun past w h _ => ?_) fun past w delay w' h _ _ => ⟨nofun, ?_, ?_⟩
  · rw [List.append_nil]
    exact h
  · rw [← h.2]
    exact h.1.booked
  · rw [timetable_append]
    exact h.2

theorem takeDue_agrees (s : Scheduler) (now : Time) :
    Meets env (SleepsUntilDue heartbeat sync)
      (fun past _ => Agrees heartbeat sync s [] past ∧ (timetable past).reading = now)
      (s.takeDue (T := T) now).run
      (Returns Panics fun taken past _ => Agrees heartbeat sync taken.2 taken.1 past) := by
  refine Meets.andThen (take_agrees s [] now .heartbeat) fun heartbeats => ?_
  refine Meets.andThen (take_agrees heartbeats.2 ([] ++ heartbeats.1) now .bundleSync)
    fun syncs => ?_
  exact meets_pure fun _ _ h => h.1

theorem runActions_agrees (s : Scheduler) (actions : List PollAction) :
    Meets env (SleepsUntilDue heartbeat sync) (fun past _ => Agrees heartbeat sync s actions past)
      (runActions (T := T) actions).run
      (Returns Panics fun _ past _ => Agrees heartbeat sync s [] past) := by
  induction actions with
  | nil => exact meets_pure fun _ _ h => h
  | cons action rest ih =>
    exact Meets.andThen (meets_perform (M := fun _ past _ => Agrees heartbeat sync s rest past)
      fun past w answer w' h _ => ⟨nofun, h.executed⟩) fun _ => ih

theorem pollCycle_agrees (s : Scheduler) :
    Meets env (SleepsUntilDue heartbeat sync) (fun past _ => Agrees heartbeat sync s [] past)
      (pollCycle (T := T) (fun duration => ask (.sleep duration)) s).run
      (Returns Panics fun s past _ => Agrees heartbeat sync s [] past) := by
  refine Meets.andThen (waitDue_meets s) fun _ => ?_
  refine Meets.andThen (meets_perform (M := fun (now : Time) past _ =>
    Agrees heartbeat sync s [] past ∧ (timetable past).reading = now)
    fun past w now w' h _ => ⟨nofun, h.now, by rw [timetable_append]; rfl⟩) fun now => ?_
  refine Meets.andThen (takeDue_agrees s now) fun taken => ?_
  exact Meets.andThen (runActions_agrees taken.2 taken.1) fun _ => meets_pure fun _ _ h => h

/-- The three events that start a run. -/
theorem agrees_start {now : Time} {first second : Nat} {u u' x x' : W} :
    Agrees heartbeat sync ⟨heartbeat, sync, now + first, now + second⟩ []
      ([] ++ [(⟨v, .now, now, v'⟩ : LoopEvent T W)] ++
        [⟨u, .nextDelay .heartbeat heartbeat, first, u'⟩] ++
        [⟨x, .nextDelay .bundleSync sync, second, x'⟩]) where
  reads := (reads_now.append (by simp)).append (by simp)
  scheduled := fun action => by
    cases action with
    | heartbeat => exact (scheduled_draw reads_now).append (by simp)
    | bundleSync => exact scheduled_draw (reads_now.append (by simp))
  drawn := by
    have hnow : ∀ e ∈ [(⟨v, .now, now, v'⟩ : LoopEvent T W)], ∀ action interval,
        e.op = .nextDelay action interval → interval = intervalOf heartbeat sync action :=
      List.forall_mem_singleton.mpr nofun
    refine List.forall_mem_append.mpr ⟨List.forall_mem_append.mpr ⟨hnow, ?_⟩, ?_⟩
    · refine List.forall_mem_singleton.mpr ?_
      rintro _ _ ⟨⟩
      rfl
    · refine List.forall_mem_singleton.mpr ?_
      rintro _ _ ⟨⟩
      rfl
  behind := fun _ action => by cases action <;> exact le_refl _
  balanced := fun action => by cases action <;> rfl
  interval := fun action => by cases action <;> rfl
  due := fun action => by cases action <;> rfl

/-- Both cadences are scheduled from the reading that starts the run. -/
theorem new_agrees (now : Time) :
    Meets env (SleepsUntilDue heartbeat sync) (fun past _ => ∃ v v', past = [⟨v, .now, now, v'⟩])
      (Scheduler.new (T := T) now heartbeat sync).run
      (Returns Panics fun s past _ => Agrees heartbeat sync s [] past) := by
  refine Meets.andThen (dueFrom_meets (Q := fun due past _ => ∃ (v v' u u' : W)
    (delay : Nat), due = now + delay ∧ past = [(⟨v, .now, now, v'⟩ : LoopEvent T W)] ++
      [⟨u, .nextDelay .heartbeat heartbeat, delay, u'⟩])
    fun past w delay w' h _ => ⟨nofun, ?_⟩) fun heartbeatDue => ?_
  · obtain ⟨v, v', rfl⟩ := h
    exact ⟨v, v', w, w', delay, rfl, rfl⟩
  refine Meets.andThen (dueFrom_meets (Q := fun due past _ =>
    Agrees heartbeat sync ⟨heartbeat, sync, heartbeatDue, due⟩ [] past)
    fun past w delay w' h _ => ⟨nofun, ?_⟩) fun syncDue => meets_pure fun _ _ h => h
  obtain ⟨v, v', u, u', first, rfl, rfl⟩ := h
  exact agrees_start

theorem pollingLoop_agrees (fuel : Nat) :
    Meets env (SleepsUntilDue heartbeat sync) (fun past _ => past = [])
      (pollingLoop (T := T) heartbeat sync fuel).run
      (Returns Panics fun s past _ => Agrees heartbeat sync s [] past) := by
  have hcontact : ∀ s action, Meets env (SleepsUntilDue heartbeat sync)
      (fun past _ => Agrees heartbeat sync s [] past) (ask (.contact action) : LoopAction T _).run
      (Returns Panics fun _ past _ => Agrees heartbeat sync s [] past) := fun s action =>
    meets_perform fun past w answer w' h _ => ⟨nofun, h.next rfl⟩
  refine Meets.andThen (meets_perform (M := fun (now : Time) past _ =>
    ∃ v v', past = [(⟨v, .now, now, v'⟩ : LoopEvent T W)])
    fun past w now w' h _ => ⟨nofun, w, w', by rw [h]; rfl⟩) fun now => ?_
  refine Meets.andThen (new_agrees now) fun s => ?_
  refine Meets.andThen (hcontact s .heartbeat) fun _ => ?_
  refine Meets.andThen (hcontact s .bundleSync) fun _ => ?_
  have hcheck : ∀ s cycle, Meets env (SleepsUntilDue heartbeat sync)
      (fun past _ => Agrees heartbeat sync s [] past)
      (ask (.shouldContinue cycle) : LoopAction T Bool).run
      (Returns Panics fun _ past _ => Agrees heartbeat sync s [] past) := fun s cycle =>
    meets_perform fun past w answer w' h _ => ⟨nofun, h.next rfl⟩
  exact runPolling_meets hcheck pollCycle_agrees fuel s 0

theorem nextDue_le (t : Timetable) (action : PollAction) : t.nextDue ≤ t.dueTime action := by
  cases action
  · exact min_le_left _ _
  · exact min_le_right _ _

/-- How far ahead a due time is, told by readings and draws. -/
theorem Booked.setBack_iff {action : PollAction} {bound : ℚ}
    (h : Booked heartbeat sync pending past) : SetBackWithin past action bound ↔
      (((timetable past).dueTime action - (timetable past).reading : ℤ) : ℚ) ≤ bound := by
  have hdue : (((timetable past).dueTime action - (timetable past).reading : ℤ) : ℚ) =
      (((timetable past).scheduled action - (timetable past).reading : ℤ) : ℚ) +
        (timetable past).delay action := by
    rw [Timetable.dueTime]
    push_cast
    ring
  rw [hdue, ← le_sub_iff_add_le]
  constructor
  · rintro ⟨booked, reading, delay, hscheduled, hreads, hle⟩
    rwa [hscheduled.eq.1, hscheduled.eq.2, hreads.eq]
  · exact fun hle => ⟨_, _, _, h.scheduled action, h.reads, hle⟩

/-- A sleep is bounded exactly when the clock is not too far behind for one of the cadences. -/
theorem sleep_le_iff {e : LoopEvent T W} {duration : Nat} {bound : ℚ}
    (h : SleepsUntilDue heartbeat sync past e) (hop : e.op = .sleep duration) :
    (duration : ℚ) ≤ bound ↔ ∃ action, SetBackWithin past action bound := by
  obtain ⟨hbooked, hlength, _⟩ := h duration hop
  have hduration : (duration : ℚ) =
      ((timetable past).nextDue - (timetable past).reading : ℤ) := by
    rw [← hlength]
    exact (Int.cast_natCast duration).symm
  rw [hduration]
  constructor
  · intro hle
    rcases min_choice ((timetable past).dueTime .heartbeat) ((timetable past).dueTime .bundleSync)
      with hnext | hnext
    · exact ⟨.heartbeat, hbooked.setBack_iff.mpr (hnext ▸ hle)⟩
    · exact ⟨.bundleSync, hbooked.setBack_iff.mpr (hnext ▸ hle)⟩
  · rintro ⟨action, hback⟩
    refine le_trans ?_ (hbooked.setBack_iff.mp hback)
    exact_mod_cast Int.sub_le_sub_right (nextDue_le _ action) _

/-- Readings that never go back leave of a due time no more than the drawn delay. -/
theorem setBack_of_neverBack {action : PollAction} {bound : ℚ}
    (h : Booked heartbeat sync pending past) (hback : Throughout NeverBack [] past)
    (hdelay : ∀ v (delay : Nat) v', ⟨v, .nextDelay action (intervalOf heartbeat sync action),
      delay, v'⟩ ∈ past → (delay : ℚ) ≤ bound) : SetBackWithin past action bound := by
  refine ⟨_, _, _, h.scheduled action, h.reads, ?_⟩
  have hscheduled :
      (((timetable past).scheduled action - (timetable past).reading : ℤ) : ℚ) ≤ 0 := by
    exact_mod_cast Int.sub_nonpos_of_le (h.behind hback action)
  obtain ⟨front, u, u', interval, behind, hpast, _⟩ := h.scheduled action
  have hdrawn := List.mem_append_right front (List.mem_cons_self (a :=
    (⟨u, .nextDelay action interval, (timetable past).delay action, u'⟩ : LoopEvent T W))
    (l := behind))
  rw [← hpast] at hdrawn
  obtain rfl := h.drawn _ hdrawn action interval rfl
  have hle := hdelay u _ u' hdrawn
  linarith

/-- A cadence that is taken but not executed keeps the loop from sleeping. -/
theorem slept_pending {action : PollAction} {middle : List (LoopEvent T W)}
    (h : Throughout (SleepsUntilDue heartbeat sync) past middle)
    (hidle : ∀ e ∈ middle, isExecution action e.op = false)
    (hpending : past.countP (fun e => isExecution action e.op) + 1 <
      past.countP (fun e => isDraw action e.op)) : slept middle = 0 := by
  induction middle generalizing past with
  | nil => rfl
  | cons e middle ih =>
    obtain ⟨hevent, hmiddle⟩ := h
    obtain ⟨he, hidle⟩ := List.forall_mem_cons.mp hidle
    have hrest := ih hmiddle hidle (by
      simp only [List.countP_append, List.countP_singleton, he]
      simp only [Bool.false_eq_true, if_false]
      omega)
    have hsleep : sleepOf e.op = 0 := by
      cases hop : e.op with
      | sleep duration =>
        have hbalanced := (hevent duration hop).1.balanced action
        simp only [List.count_nil] at hbalanced
        omega
      | _ => rfl
    show sleepOf e.op + slept middle = 0
    rw [hsleep, hrest]

/-- While the clock goes on, the loop does not sleep past a due time. -/
theorem slept_le {action : PollAction} {middle : List (LoopEvent T W)} {time : Time}
    (h : Throughout (SleepsUntilDue heartbeat sync) past middle) (hclock : GoesOn time middle)
    (hidle : ∀ e ∈ middle, isExecution action e.op = false)
    (hbalanced : past.countP (fun e => isDraw action e.op) =
      past.countP (fun e => isExecution action e.op) + 1)
    (hread : ∀ front v reading v', past = front ++ [⟨v, .now, reading, v'⟩] → time = reading) :
    (slept middle : ℤ) ≤ max 0 ((timetable past).dueTime action - time) := by
  induction middle generalizing past time with
  | nil => exact le_max_left _ _
  | cons e middle ih =>
    obtain ⟨hevent, hmiddle⟩ := h
    obtain ⟨he, hlater⟩ := List.forall_mem_cons.mp hidle
    have hgoes : ∀ time', isDraw action e.op = false → GoesOn time' middle →
        (∀ front v reading v', past ++ [e] = front ++ [⟨v, .now, reading, v'⟩] →
          time' = reading) →
        (slept middle : ℤ) ≤ max 0 ((timetable past).dueTime action - time') := by
      intro time' hdraw hclock hread
      have hrest := ih hmiddle hclock hlater (by
        rw [List.countP_append, List.countP_append, List.countP_singleton, List.countP_singleton,
          hdraw, he, hbalanced]
        rfl) hread
      have hundrawn : ∀ x ∈ [e], ∀ interval, x.op ≠ .nextDelay action interval :=
        List.forall_mem_singleton.mpr fun interval hop => by simp [isDraw, hop] at hdraw
      obtain ⟨hscheduled, hdelay⟩ := foldl_scheduled (timetable past) hundrawn
      rwa [Timetable.dueTime, timetable_extend, hscheduled, hdelay] at hrest
    have hlast : ∀ {front v reading v'}, past ++ [e] = front ++ [⟨v, .now, reading, v'⟩] →
        e = ⟨v, .now, reading, v'⟩ := fun heq => (List.cons.inj (List.append_inj' heq rfl).2).1
    have hslept : slept (e :: middle) = sleepOf e.op + slept middle := rfl
    rw [hslept]
    obtain ⟨v, op, answer, v'⟩ := e
    cases op with
    | now =>
      obtain ⟨hle, hclock⟩ := hclock
      have hrest := hgoes answer rfl hclock fun front u reading u' heq => by
        cases hlast heq
        rfl
      refine (Nat.zero_add (slept middle)).symm ▸ hrest.trans (max_le_max_left 0 ?_)
      exact Int.sub_le_sub_left hle _
    | sleep duration =>
      obtain ⟨_, hlength, front, u, u', hpast⟩ := hevent duration rfl
      have hrest := hgoes (time + duration) rfl hclock fun front u reading u' heq => by
        cases hlast heq
      rw [← hread _ _ _ _ hpast] at hlength
      have hdue : time + duration ≤ (timetable past).dueTime action := by
        rw [hlength, add_sub_cancel]
        exact nextDue_le _ _
      rw [max_eq_right (Int.sub_nonneg_of_le hdue)] at hrest
      refine le_max_of_le_right ?_
      show ((duration + slept middle : Nat) : ℤ) ≤ _
      push_cast
      linarith
    | nextDelay other interval =>
      rw [show sleepOf (.nextDelay other interval) = 0 from rfl, Nat.zero_add]
      by_cases hother : other = action
      · have hpending := slept_pending hmiddle hlater (by
          rw [List.countP_append, List.countP_append, List.countP_singleton,
            List.countP_singleton, hbalanced, he,
            show isDraw action (.nextDelay other interval) = true from decide_eq_true hother]
          exact Nat.lt_succ_self _)
        rw [hpending]
        exact le_max_left _ _
      · exact hgoes time (decide_eq_false hother) hclock fun front u reading u' heq => by
          cases hlast heq
    | _ =>
      rw [show sleepOf _ = 0 from rfl, Nat.zero_add]
      exact hgoes time rfl hclock fun front u reading u' heq => by cases hlast heq

end Sleeps

/-- Every sleep of the poll loop is within the longest delay of a cadence exactly when, before each
sleep, the clock has not gone back too far for one of the cadences. So it is when the readings never
go back and no delay was rounded up. From a sleep before which the clock has not gone back too far
for a cadence, and while the clock goes on, that cadence is executed before more than the longest
delay was slept in all. -/
theorem sleeps_bounded_iff (heartbeat sync : JitteredInterval)
    {env : Environment (loopSignature T) W}
    (hdraws : ∀ w action interval (delay : Nat) w',
      env w (.nextDelay action interval) delay w' → interval.Allows delay)
    {fuel : Nat} {w w' : W} {trace : List (LoopEvent T W)}
    {result : Option (Except Panic Scheduler)}
    (h : Exec env (pollingLoop heartbeat sync fuel).run w trace result w') :
    (SleepsAtMost trace (largestDelay heartbeat sync) ↔
      ∀ past e rest duration, trace = past ++ e :: rest → e.op = .sleep duration →
        ∃ action, SetBackWithin past action (largestDelay heartbeat sync)) ∧
    (Throughout NeverBack [] trace → SleepsAtMost trace (largestDelay heartbeat sync + 1 / 2) ∧
      ((∀ e ∈ trace, Unrounded e) → SleepsAtMost trace (largestDelay heartbeat sync))) ∧
    ∀ past e middle rest duration reading action, trace = past ++ e :: (middle ++ rest) →
      e.op = .sleep duration → SetBackWithin past action (largestDelay heartbeat sync) →
      Reads past reading → GoesOn reading (e :: middle) →
      largestDelay heartbeat sync < slept (e :: middle) → ∃ x ∈ middle, x.op = .act action := by
  have hsleeps := (pollingLoop_agrees fuel [] w trace result w' rfl h).1
  refine ⟨?_, fun hback => ?_, ?_⟩
  · constructor
    · rintro hbounded past e rest duration rfl hop
      exact (sleep_le_iff hsleeps.middle hop).mp
        (hbounded e (List.mem_append_right _ (List.mem_cons_self ..)) duration hop)
    · intro hlittle e he duration hop
      obtain ⟨past, rest, rfl⟩ := List.append_of_mem he
      exact (sleep_le_iff hsleeps.middle hop).mpr (hlittle past e rest duration rfl hop)
  · have hsleep : ∀ bound : ℚ, (∀ v (delay : Nat) v',
        ⟨v, .nextDelay .heartbeat heartbeat, delay, v'⟩ ∈ trace → (delay : ℚ) ≤ bound) →
        SleepsAtMost trace bound := by
      intro bound hbound e he duration hop
      obtain ⟨past, rest, rfl⟩ := List.append_of_mem he
      have hbooked := (hsleeps.middle duration hop).1
      refine (sleep_le_iff hsleeps.middle hop).mpr ⟨.heartbeat, ?_⟩
      exact setBack_of_neverBack hbooked (throughout_append.mp hback).1 fun v delay v' hdrawn =>
        hbound v delay v' (List.mem_append_left _ hdrawn)
    have hlargest : heartbeat.largest ≤ largestDelay heartbeat sync := le_max_left _ _
    constructor
    · refine hsleep _ fun v delay v' hdrawn => ?_
      have hallowed : heartbeat.Allows delay := hdraws _ _ _ _ _ (h.event_env _ hdrawn)
      exact hallowed.2.trans (add_le_add_left hlargest _)
    · intro hunrounded
      refine hsleep _ fun v delay v' hdrawn => ?_
      have hexact : (delay : ℚ) ≤ heartbeat.largest := hunrounded _ hdrawn
      exact hexact.trans hlargest
  · rintro past e middle rest duration reading action rfl hop hback hreads hclock hlong
    by_contra hnone
    have hidle : ∀ x ∈ e :: middle, isExecution action x.op = false := by
      refine List.forall_mem_cons.mpr ⟨by rw [hop]; rfl, fun x hx => ?_⟩
      cases hact : x.op with
      | act other =>
        refine decide_eq_false ?_
        rintro rfl
        exact hnone ⟨x, hx, hact⟩
      | _ => rfl
    have hbooked := (hsleeps.middle duration hop).1
    have hafter : Throughout (SleepsUntilDue heartbeat sync) past ((e :: middle) ++ rest) :=
      (throughout_append.mp hsleeps).2
    have hle := slept_le (throughout_append.mp hafter).1 hclock hidle (hbooked.balanced action)
      fun front v reading' v' hpast => by
        rw [← hreads.eq, hpast]
        exact reads_now.eq
    have hdue : (((timetable past).dueTime action - (timetable past).reading : ℤ) : ℚ) ≤
        largestDelay heartbeat sync := hbooked.setBack_iff.mp hback
    rw [hreads.eq] at hdue
    have hcast : (slept (e :: middle) : ℚ) ≤
        max 0 (((timetable past).dueTime action - reading : ℤ) : ℚ) := by
      exact_mod_cast hle
    exact absurd (hcast.trans (max_le (largestDelay_nonneg _ _) hdue)) (not_le.mpr hlong)

def minutely : JitteredInterval := .new (ofSecs 60) (some (1 / 10))

/-- The clock gives these readings in turn, and no delay has any jitter. -/
def readFrom (readings : List Time) : (op : LoopOp) → Option (op.Answer Unit × List Time)
  | .now => readings.head?.map fun reading => (reading, readings.tail)
  | .nextDelay _ interval => some (interval.base, readings)
  | .sleep _ => some ((), readings)
  | .shouldContinue _ => some (true, readings)
  | .act _ => some (.ok (), readings)
  | .contact _ => some (.ok (), readings)
  | .isRequested => some (false, readings)
  | .threadSleep _ => some ((), readings)
  | .attempt _ => some (.ok (), readings)
  | .backoffDelay _ => some ((0 : Nat), readings)

/-- The first reading of the loop is an hour before the one of the start. -/
def setBack : List Time := [0, -3600 * nanosPerSecond]

/-- The sleeps last as long as they should. -/
def setForth : List Time :=
  [0, 30 * nanosPerSecond, 60 * nanosPerSecond, 60 * nanosPerSecond, 120 * nanosPerSecond]

def readingEnv : Environment (loopSignature Unit) (List Time) :=
  fun readings op answer rest => readFrom readings op = some (answer, rest)

theorem base_allowed (interval : JitteredInterval) : interval.Allows interval.base := by
  refine ⟨le_refl _, ?_⟩
  rw [JitteredInterval.largest, mul_one_add]
  have hjitter : 0 ≤ (interval.base : ℚ) * interval.ratio :=
    mul_nonneg (Nat.cast_nonneg _) interval.nonneg
  linarith

theorem readingEnv_allows (w : List Time) (action : PollAction) (interval : JitteredInterval)
    (delay : Nat) (w' : List Time) (h : readingEnv w (.nextDelay action interval) delay w') :
    interval.Allows delay := by
  obtain rfl : interval.base = delay := (Prod.mk.inj (Option.some.inj h)).1
  exact base_allowed interval

/-- The start of the loop with this clock. -/
def polledFrom (readings : List Time) :
    List (LoopEvent Unit (List Time)) × Option (Except Panic Scheduler) × List Time :=
  play (S := loopSignature Unit) (fun rest op => readFrom rest op)
    (pollingLoop minutely minutely 2).run readings

theorem polledFrom_exec (readings : List Time) :
    Exec readingEnv (pollingLoop minutely minutely 2).run readings (polledFrom readings).1
      (polledFrom readings).2.1 (polledFrom readings).2.2 :=
  exec_play (fun _ _ _ _ h => h) _ readings

/-- The two sleeps are bounded, and between them a cadence is executed. -/
theorem sleeps_bounded_iff_setForth :
    SleepsAtMost (polledFrom setForth).1 (largestDelay minutely minutely) ∧
      ∃ action, ∃ x ∈ ((polledFrom setForth).1.drop 8).take 8, x.op = .act action := by
  have hbounded := sleeps_bounded_iff minutely minutely readingEnv_allows (polledFrom_exec setForth)
  have hsleeps : SleepsAtMost (polledFrom setForth).1 (largestDelay minutely minutely) :=
    (hbounded.2.1 (by decide +kernel)).2 (by decide +kernel)
  let trace := (polledFrom setForth).1
  let first : LoopEvent Unit (List Time) := trace.get ⟨7, by decide +kernel⟩
  have hfirst : first.op = .sleep (ofSecs 30) := by decide +kernel
  have hsplit : trace =
      trace.take 7 ++ first :: ((trace.drop 8).take 8 ++ (trace.drop 8).drop 8) := by
    have hdrop : trace.drop 7 = first :: trace.drop 8 :=
      List.drop_eq_getElem_cons (by decide +kernel)
    rw [List.take_append_drop, ← hdrop, List.take_append_drop]
  obtain ⟨action, hback⟩ := hbounded.1.mp hsleeps _ _ _ _ hsplit hfirst
  obtain ⟨_, reading, _, _, hreads, _⟩ := id hback
  have hclock : GoesOn (timetable (trace.take 7)).reading (first :: (trace.drop 8).take 8) := by
    decide +kernel
  rw [hreads.eq] at hclock
  exact ⟨hsleeps, action, hbounded.2.2 _ _ _ _ _ _ action hsplit hfirst hback hreads hclock
    (by decide +kernel)⟩

/-- A clock set back by an hour has the loop sleep for an hour and a minute. -/
theorem setBack_oversleeps :
    ∃ trace result w',
      Exec readingEnv (pollingLoop minutely minutely 2).run setBack trace result w' ∧
      ¬ SleepsAtMost trace (largestDelay minutely minutely) := by
  refine ⟨_, _, _, polledFrom_exec setBack, fun hbounded => ?_⟩
  have hslept : (polledFrom setBack).1.any (fun e => e.op = .sleep (ofSecs 3660)) = true := by
    decide +kernel
  obtain ⟨e, he, hop⟩ := List.any_eq_true.mp hslept
  have hle := hbounded e he _ (of_decide_eq_true hop)
  revert hle
  decide +kernel

end MayflyAgent.Timetables
