import MayflyAgent.Arrivals
import MayflyAgent.Spacing
import MayflyAgent.Timetables
import Mathlib.Data.Int.ConditionallyCompleteOrder

/-!
What the poll loop does in a cycle, when the clock does not go back and a sleep lasts at least as
long as it should. The cycle ends behind the earlier due time, so something is due in it; what is
due is executed and booked again from the reading by which it was due. Between the readings of
two executions of a cadence there is at least its interval. Between their starts there need not
be: an execution may have to wait for a slow one of the same cycle, and the next one need not.
A cycle that has begun comes to an action and to the next check, whatever is answered.
-/
namespace MayflyAgent.PollCycles

open Programs Contracts Budgets Arrivals Bundles Spacing Scheduling Timetables
open Heartbeats (PollAction)

variable {T : Type}

/-- The world is the time. It never goes back, a reading tells it, a sleep lasts long enough, and
a delay is anything from the base to twice the base. -/
def steadyClock : Environment (loopSignature T) Time := fun now op answer later =>
  now ≤ later ∧
    match op, answer with
    | .now, (reading : Time) => now ≤ reading ∧ reading ≤ later
    | .sleep duration, _ => now + duration ≤ later
    | .nextDelay _ interval, (delay : Nat) => interval.base ≤ delay ∧ delay ≤ 2 * interval.base
    | _, _ => True

def isCheck : LoopOp → Bool
  | .shouldContinue _ => true
  | _ => false

section Cycles

variable (heartbeat sync : JitteredInterval) (start : Time)

def baseOf (action : PollAction) : Nat := (intervalOf heartbeat sync action).base

/-- The cycle that ends here, if one does, has done what was due, and something was. Since a cadence
was last taken, another was executed only so many times. -/
def Completed (past : List (LoopEvent T Time)) : Prop :=
  past.any (fun e => isCheck e.op) = true →
    (timetable past).done = (timetable past).due ∧ (timetable past).due ≠ [] ∧
      (∀ other, (timetable past).reading < (timetable past).dueTime other) ∧
      ∀ action other, ((timetable past).taken other).countP
          (fun t => (timetable past).scheduled action < t) * baseOf heartbeat sync other <
        2 * baseOf heartbeat sync action + baseOf heartbeat sync other

/-- Before an action is executed, and before the loop is asked whether to go on: the actions of a
cycle are those that were due at its reading, each taken as often as its interval allows. -/
def OnTime (past : List (LoopEvent T Time)) (e : LoopEvent T Time) : Prop :=
  match e.op with
  | .act action =>
    (∃ rest, (timetable past).due = (timetable past).done ++ action :: rest) ∧
      (∀ other, (timetable past).reading < (timetable past).dueTime other) ∧
      (timetable past).reading ≤ e.before ∧
      start + (((timetable past).taken action).length + 1) * baseOf heartbeat sync action ≤
        (timetable past).reading ∧
      ∀ earlier ∈ (timetable past).taken action,
        earlier + baseOf heartbeat sync action ≤ (timetable past).reading
  | .shouldContinue _ => Completed heartbeat sync past
  | _ => True

/-- The scheduler agrees with the timetable. The actions that are taken but not yet executed count
as executed at the last reading; with them and its due time, a cadence keeps its distances. -/
structure Paced (s : Scheduler) (pending : List PollAction) (past : List (LoopEvent T Time))
    (now : Time) : Prop where
  interval : ∀ action, s.interval action = intervalOf heartbeat sync action
  due : ∀ action, s.dueOf action = (timetable past).dueTime action
  reading : (timetable past).reading ≤ now
  recent : ∀ action, (timetable past).scheduled action ≤ (timetable past).reading ∧
    (timetable past).delay action ≤ 2 * baseOf heartbeat sync action
  taken : ∀ action, ∀ t ∈ (timetable past).taken action, t ≤ (timetable past).reading
  spaced : ∀ action, Spaced (baseOf heartbeat sync action : ℤ)
    (start :: ((timetable past).taken action ++
      (if action ∈ pending then [(timetable past).reading] else [])) ++
      [(timetable past).dueTime action])

variable {heartbeat sync start} {s : Scheduler} {pending : List PollAction}
  {past : List (LoopEvent T Time)} {now later : Time}

/-- An event that books and executes nothing leaves a scheduler paced. -/
theorem Paced.next {op : LoopOp} {answer : op.Answer T}
    (h : Paced heartbeat sync start s [] past now)
    (hscheduled : ((timetable past).next op answer).scheduled = (timetable past).scheduled)
    (hdelay : ((timetable past).next op answer).delay = (timetable past).delay)
    (htaken : ((timetable past).next op answer).taken = (timetable past).taken)
    (hback : (timetable past).reading ≤ ((timetable past).next op answer).reading)
    (hreading : ((timetable past).next op answer).reading ≤ later) :
    Paced heartbeat sync start s [] (past ++ [⟨now, op, answer, later⟩]) later where
  interval := h.interval
  due := fun action => by
    rw [h.due, timetable_append, Timetable.dueTime, Timetable.dueTime, hscheduled, hdelay]
  reading := by rwa [timetable_append]
  recent := fun action => by
    rw [timetable_append, hscheduled, hdelay]
    exact (h.recent action).imp_left hback.trans'
  taken := fun action t ht => by
    rw [timetable_append] at ht ⊢
    rw [htaken] at ht
    exact (h.taken action t ht).trans hback
  spaced := fun action => by
    have hspaced := h.spaced action
    rw [timetable_append, Timetable.dueTime, hscheduled, hdelay, htaken]
    simpa [Timetable.dueTime] using hspaced

/-- A due cadence that is booked from the last reading counts as executed by it. -/
theorem Paced.booked {action : PollAction} {delay : Nat} (interval : JitteredInterval)
    (h : Paced heartbeat sync start s pending past now) (hfresh : action ∉ pending)
    (hdue : s.dueOf action ≤ (timetable past).reading)
    (hdelay : baseOf heartbeat sync action ≤ delay)
    (hlong : delay ≤ 2 * baseOf heartbeat sync action) (hlater : now ≤ later) :
    Paced heartbeat sync start (s.setDue action ((timetable past).reading + delay))
      (pending ++ [action]) (past ++ [⟨now, .nextDelay action interval, delay, later⟩]) later where
  interval := fun other => by
    rw [← h.interval other]
    cases action <;> rfl
  due := fun other => by
    have hother := h.due other
    rw [timetable_append]
    cases action <;> cases other <;>
      simp_all [Timetable.next, Timetable.dueTime, Scheduler.setDue, Scheduler.dueOf]
  reading := by
    rw [timetable_append]
    exact h.reading.trans hlater
  recent := fun other => by
    have hrecent := h.recent other
    rw [timetable_append]
    by_cases hother : other = action
    · subst hother
      simpa [Timetable.next] using hlong
    · simpa [Timetable.next, Function.update_of_ne hother] using hrecent
  taken := fun other => by
    rw [timetable_append]
    exact h.taken other
  spaced := fun other => by
    have hspaced := h.spaced other
    rw [timetable_append]
    by_cases hother : other = action
    · subst hother
      rw [if_neg hfresh, List.append_nil] at hspaced
      have htaken := hspaced.putOff (h.due other ▸ hdue)
      have hbooked : Spaced (baseOf heartbeat sync other : ℤ)
          (start :: (timetable past).taken other ++ [(timetable past).reading] ++
            [(timetable past).reading + delay]) :=
        spaced_append.mpr ⟨htaken, by simpa using hdelay⟩
      simpa [Timetable.next, Timetable.dueTime] using hbooked
    · simpa [Timetable.next, Timetable.dueTime, Function.update_of_ne hother, hother] using hspaced

/-- The action that is executed next leaves the pending ones. -/
theorem Paced.executed {action : PollAction} {rest : List PollAction}
    {answer : Except Errors.Error Unit} (h : Paced heartbeat sync start s (action :: rest) past now)
    (hnodup : (action :: rest).Nodup)
    (hlater : now ≤ later) :
    Paced heartbeat sync start s rest (past ++ [⟨now, .act action, answer, later⟩]) later where
  interval := h.interval
  due := fun other => by
    rw [h.due, timetable_append]
    rfl
  reading := by
    rw [timetable_append]
    exact h.reading.trans hlater
  recent := fun other => by
    rw [timetable_append]
    exact h.recent other
  taken := fun other => by
    have htaken := h.taken other
    rw [timetable_append]
    by_cases hother : other = action
    · subst hother
      simpa [Timetable.next] using List.forall_mem_append.mpr
        ⟨htaken, List.forall_mem_singleton.mpr (le_refl _)⟩
    · simpa [Timetable.next, Function.update_of_ne hother] using htaken
  spaced := fun other => by
    have hspaced := h.spaced other
    rw [timetable_append]
    by_cases hother : other = action
    · subst hother
      have hgone : other ∉ rest := (List.nodup_cons.mp hnodup).1
      simpa [Timetable.next, Timetable.dueTime, hgone] using hspaced
    · simpa [Timetable.next, Timetable.dueTime, Function.update_of_ne hother, hother] using hspaced

theorem waitDue_paced (s : Scheduler) :
    Meets steadyClock (OnTime heartbeat sync start)
      (fun past now => Paced heartbeat sync start s [] past now ∧ (timetable past).done = [])
      (waitDue (T := T) (fun duration => ask (.sleep duration)) s).run
      (Returns Panics fun _ past now => (Paced heartbeat sync start s [] past now ∧
        (timetable past).done = []) ∧ s.nextDue ≤ now) := by
  refine Meets.andThen (meets_perform (M := fun (reading : Time) past now =>
    (Paced heartbeat sync start s [] past now ∧ (timetable past).done = []) ∧ reading ≤ now)
    fun past now reading later h henv => ⟨trivial, ⟨h.1.next rfl rfl rfl
      (h.1.reading.trans henv.2.1) henv.2.2, by
      rw [timetable_append]
      exact h.2⟩, henv.2.2⟩) fun reading => ?_
  dsimp only
  split
  · rename_i hwait
    refine meets_perform fun past now answer later h henv => ⟨trivial, ⟨h.1.1.next rfl rfl rfl
      (le_refl _) (h.1.1.reading.trans henv.1), ?_⟩, ?_⟩
    · rw [timetable_append]
      exact h.1.2
    · have hslept : now + ((s.nextDue - reading).toNat : ℤ) ≤ later := henv.2
      rw [Int.toNat_of_nonneg hwait.le] at hslept
      have hreading := h.2
      linarith
  · rename_i hwait
    exact meets_pure fun _ _ h => ⟨h.1, (sub_nonpos.mp (not_lt.mp hwait)).trans h.2⟩

variable (heartbeat sync start) in
/-- The cycle has looked at the clock, these actions are due by it, and none has been executed. -/
structure Taking (s : Scheduler) (pending : List PollAction) (moment : Time)
    (actions : List PollAction) (past : List (LoopEvent T Time)) (now : Time) : Prop extends
    Paced heartbeat sync start s pending past now where
  read : (timetable past).reading = moment
  found : (timetable past).due = actions
  fresh : (timetable past).done = []

theorem take_paced (hpositive : ∀ action, 0 < baseOf heartbeat sync action) (s : Scheduler)
    (pending actions : List PollAction) (moment : Time) (action : PollAction)
    (hfresh : action ∉ pending) :
    Meets steadyClock (OnTime heartbeat sync start)
      (Taking heartbeat sync start s pending moment actions) (s.take (T := T) moment action).run
      (Returns Panics fun taken past now =>
        Taking heartbeat sync start taken.2 (pending ++ taken.1) moment actions past now ∧
        taken.1 = (if s.dueOf action ≤ moment then [action] else []) ∧
        moment < taken.2.dueOf action ∧
        ∀ other, other ≠ action → taken.2.dueOf other = s.dueOf other) := by
  refine take_meets (fun past now h hlater => ?_) fun past now delay later h hdue henv =>
    ⟨trivial, ?_⟩
  · rw [List.append_nil, if_neg (not_le.mpr hlater)]
    exact ⟨h, rfl, hlater, fun _ _ => rfl⟩
  · obtain ⟨hlater, hdelay, hlong⟩ := henv
    rw [if_pos hdue]
    rw [h.interval action] at hdelay hlong
    have hbooked := h.toPaced.booked (s.interval action) hfresh (h.read ▸ hdue) hdelay hlong hlater
    rw [h.read] at hbooked
    refine ⟨⟨hbooked, ?_, ?_, ?_⟩, rfl, ?_, ?_⟩
    · rw [timetable_append]
      exact h.read
    · rw [timetable_append]
      exact h.found
    · rw [timetable_append]
      exact h.fresh
    · have hahead : moment < moment + delay :=
        Int.lt_add_of_pos_right _ (Int.natCast_pos.mpr ((hpositive action).trans_le hdelay))
      cases action <;> exact hahead
    · intro other hother
      cases action <;> cases other <;> first | rfl | exact absurd rfl hother

/-- What a scheduler would find due. -/
def dueAt (s : Scheduler) (moment : Time) : List PollAction :=
  [.heartbeat, .bundleSync].filter fun action => s.dueOf action ≤ moment

theorem Paced.looked {moment : Time} (h : Paced heartbeat sync start s [] past now)
    (hfresh : (timetable past).done = []) (hmoment : now ≤ moment) (hlater : moment ≤ later) :
    Taking heartbeat sync start s [] moment (dueAt s moment) (past ++ [⟨now, .now, moment, later⟩])
      later := by
  refine ⟨h.next rfl rfl rfl (h.reading.trans hmoment) hlater, ?_, ?_, ?_⟩
  · rw [timetable_append]
    rfl
  · rw [timetable_append]
    simp only [Timetable.next, Timetable.dueAt, dueAt, h.due]
  · rw [timetable_append]
    exact hfresh

/-- Actions are taken from the front of those that are due, and nothing is due any more. -/
structure Executing (heartbeat sync : JitteredInterval) (start : Time) (s : Scheduler)
    (pending : List PollAction) (past : List (LoopEvent T Time)) (now : Time) : Prop extends
    Paced heartbeat sync start s pending past now where
  left : (timetable past).due = (timetable past).done ++ pending
  some : (timetable past).due ≠ []
  later : ∀ action, (timetable past).reading < (timetable past).dueTime action
  nodup : pending.Nodup

theorem takeDue_paced (hpositive : ∀ action, 0 < baseOf heartbeat sync action) (s : Scheduler)
    (moment : Time) (hdue : s.nextDue ≤ moment) :
    Meets steadyClock (OnTime heartbeat sync start)
      (Taking heartbeat sync start s [] moment (dueAt s moment))
      (s.takeDue (T := T) moment).run
      (Returns Panics fun taken => Executing heartbeat sync start taken.2 taken.1) := by
  have hsome : dueAt s moment ≠ [] := by
    rcases min_le_iff.mp hdue with hheartbeat | hsync
    · exact List.ne_nil_of_mem (List.mem_filter.mpr
        ⟨List.mem_cons_self .., decide_eq_true hheartbeat⟩)
    · exact List.ne_nil_of_mem (List.mem_filter.mpr
        ⟨List.mem_cons_of_mem _ (List.mem_singleton_self _), decide_eq_true hsync⟩)
  refine Meets.andThen (take_paced hpositive s [] _ moment .heartbeat List.not_mem_nil)
    fun first => ?_
  obtain ⟨heartbeats, s₁⟩ := first
  refine meets_of_fact (C := heartbeats = _ ∧ moment < s₁.dueOf .heartbeat ∧ ∀ other, _)
    (fun past now h => h.2) fun ⟨hheartbeats, hahead, hkept⟩ => ?_
  have hfresh : PollAction.bundleSync ∉ [] ++ heartbeats := by
    rw [hheartbeats, List.nil_append]
    split <;> simp
  refine Meets.andThen ((take_paced hpositive s₁ ([] ++ heartbeats) _ moment .bundleSync hfresh).pre
    fun past now h => h.1) fun second => ?_
  obtain ⟨syncs, s₂⟩ := second
  refine meets_pure fun past now ⟨htaking, hsyncs, hahead', hkept'⟩ => ?_
  have htaken : heartbeats ++ syncs = dueAt s moment := by
    dsimp only at hheartbeats hsyncs
    rw [hheartbeats, hsyncs, hkept .bundleSync (by decide), dueAt]
    by_cases hheartbeat : s.dueOf .heartbeat ≤ moment <;>
      by_cases hsync : s.dueOf .bundleSync ≤ moment <;> simp [hheartbeat, hsync]
  refine ⟨htaking.toPaced, ?_, ?_, ?_, ?_⟩
  · rw [htaking.found, htaking.fresh, List.nil_append]
    exact htaken.symm
  · rw [htaking.found]
    exact hsome
  · intro action
    rw [htaking.read, ← htaking.due]
    cases action with
    | heartbeat => exact hkept' .heartbeat (by decide) ▸ hahead
    | bundleSync => exact hahead'
  · show (heartbeats ++ syncs).Nodup
    rw [htaken]
    exact List.Nodup.filter _ (by decide)

/-- What was executed since a cadence was taken had room in front of its due time. -/
theorem Executing.shared (h : Executing heartbeat sync start s [] past now)
    (action other : PollAction) : ((timetable past).taken other).countP
        (fun t => (timetable past).scheduled action < t) * baseOf heartbeat sync other <
      2 * baseOf heartbeat sync action + baseOf heartbeat sync other := by
  obtain ⟨hscheduled, hdelay⟩ := h.recent action
  have hspaced := h.spaced other
  rw [if_neg List.not_mem_nil, List.append_nil] at hspaced
  have htaken : Spaced (baseOf heartbeat sync other : ℤ) ((timetable past).taken other) :=
    (List.isChain_append.mp hspaced).1.tail
  have hroom := spaced_countP (Int.natCast_nonneg _) htaken hscheduled (h.taken other)
    (p := fun t => (timetable past).scheduled action < t) fun t _ ht => (of_decide_eq_true ht).le
  rw [nsmul_eq_mul] at hroom
  have hlater := h.later action
  rw [Timetable.dueTime] at hlater
  zify
  zify at hdelay
  linarith

theorem runActions_paced (s : Scheduler) (actions : List PollAction) :
    Meets steadyClock (OnTime heartbeat sync start) (Executing heartbeat sync start s actions)
      (runActions (T := T) actions).run
      (Returns Panics fun _ => Executing heartbeat sync start s []) := by
  induction actions with
  | nil => exact meets_pure fun _ _ h => h
  | cons action rest ih =>
    refine Meets.andThen (meets_perform (M := fun _ => Executing heartbeat sync start s rest)
      fun past now answer later h henv => ⟨?_, ?_⟩) fun _ => ih
    · have htaken := h.spaced action
      rw [if_pos (List.mem_cons_self ..)] at htaken
      have hfront : Spaced (baseOf heartbeat sync action : ℤ)
          (start :: ((timetable past).taken action ++ [(timetable past).reading])) :=
        (List.isChain_append.mp htaken).1
      refine ⟨⟨rest, h.left⟩, h.later, h.reading, ?_, ?_⟩
      · simpa using spaced_last hfront
      · intro earlier hearlier
        exact spaced_mem (Int.natCast_nonneg _) hfront.tail earlier hearlier
    · refine ⟨h.toPaced.executed h.nodup henv.1, ?_, ?_, ?_, (List.nodup_cons.mp h.nodup).2⟩
      · rw [timetable_append]
        simpa [Timetable.next] using h.left
      · rw [timetable_append]
        exact h.some
      · rw [timetable_append]
        exact h.later

theorem Completed.next {op : LoopOp} {answer : op.Answer T} (h : Completed heartbeat sync past)
    (hop : isCheck op = false) (hnext : (timetable past).next op answer = timetable past) :
    Completed heartbeat sync (past ++ [⟨now, op, answer, later⟩]) := by
  intro hchecked
  rw [timetable_append, hnext]
  rw [List.any_append, Bool.or_eq_true] at hchecked
  rcases hchecked with hchecked | hchecked
  · exact h hchecked
  · simp [hop] at hchecked

/-- Between two cycles. -/
def Idle (heartbeat sync : JitteredInterval) (start : Time) (s : Scheduler)
    (past : List (LoopEvent T Time)) (now : Time) : Prop :=
  Paced heartbeat sync start s [] past now ∧ Completed heartbeat sync past

/-- A step lemma: a cycle that starts paced ends so, and has done what was due. -/
theorem pollCycle_paced (hpositive : ∀ action, 0 < baseOf heartbeat sync action) (s : Scheduler) :
    Meets steadyClock (OnTime heartbeat sync start)
      (fun past now => Paced heartbeat sync start s [] past now ∧ (timetable past).done = [])
      (pollCycle (T := T) (fun duration => ask (.sleep duration)) s).run
      (Returns Panics (Idle heartbeat sync start)) := by
  refine Meets.andThen (waitDue_paced s) fun _ => ?_
  refine Meets.andThen (meets_perform (M := fun (moment : Time) past now =>
    Taking heartbeat sync start s [] moment (dueAt s moment) past now ∧ s.nextDue ≤ moment)
    fun past now moment later h henv => ⟨trivial, h.1.1.looked h.1.2 henv.2.1 henv.2.2,
      h.2.trans henv.2.1⟩) fun moment => ?_
  refine meets_of_fact (fun _ _ h => h.2) fun hdue => ?_
  refine Meets.andThen ((takeDue_paced hpositive s moment hdue).pre fun _ _ h => h.1)
    fun taken => ?_
  refine Meets.andThen (runActions_paced taken.2 taken.1) fun _ => meets_pure fun past now h => ?_
  refine ⟨h.toPaced, fun _ => ⟨?_, h.some, h.later, h.shared⟩⟩
  rw [h.left, List.append_nil]

theorem new_paced :
    Meets steadyClock (OnTime heartbeat sync start)
      (fun past now => (timetable past).reading = start ∧ start ≤ now ∧
        (timetable past).taken = (fun _ => []) ∧ past.any (fun e => isCheck e.op) = false)
      (Scheduler.new (T := T) start heartbeat sync).run
      (Returns Panics (Idle heartbeat sync start)) := by
  refine Meets.andThen (dueFrom_meets (Q := fun due past now => ((timetable past).reading = start ∧
    start ≤ now ∧ (timetable past).taken = (fun _ => []) ∧
    past.any (fun e => isCheck e.op) = false) ∧ ∃ delay : Nat, due = start + delay ∧
    (timetable past).scheduled .heartbeat = start ∧ (timetable past).delay .heartbeat = delay ∧
    baseOf heartbeat sync .heartbeat ≤ delay ∧ delay ≤ 2 * baseOf heartbeat sync .heartbeat)
    fun past now delay later h henv => ⟨trivial, ?_⟩) fun heartbeatDue => ?_
  · obtain ⟨hreading, hstart, htaken, hcheck⟩ := h
    rw [timetable_append]
    refine ⟨⟨hreading, hstart.trans henv.1, htaken, by rw [List.any_append, hcheck]; rfl⟩, delay,
      rfl, ?_, ?_, henv.2⟩
    · simp [Timetable.next, hreading]
    · simp [Timetable.next]
  refine Meets.andThen (dueFrom_meets (Q := fun due => Idle heartbeat sync start
    ⟨heartbeat, sync, heartbeatDue, due⟩)
    fun past now delay later h henv => ⟨trivial, ?_⟩) fun syncDue => meets_pure fun _ _ h => h
  obtain ⟨⟨hreading, hstart, htaken, hcheck⟩, first, rfl, hscheduled, hfirst, hbase, hlong⟩ := h
  have hdelay : baseOf heartbeat sync .bundleSync ≤ delay ∧
      delay ≤ 2 * baseOf heartbeat sync .bundleSync := henv.2
  constructor
  · constructor
    · intro action
      cases action <;> rfl
    · intro action
      rw [timetable_append]
      cases action <;> simp_all [Timetable.next, Timetable.dueTime, Scheduler.dueOf]
    · rw [timetable_append]
      exact hreading.trans_le (hstart.trans henv.1)
    · intro action
      rw [timetable_append]
      cases action <;> simp_all [Timetable.next]
    · intro action
      rw [timetable_append]
      simp [Timetable.next, htaken]
    · intro action
      rw [timetable_append]
      cases action <;> simp_all [Timetable.next, Timetable.dueTime, Spaced]
  · intro hchecked
    rw [List.any_append, hcheck] at hchecked
    cases hchecked

end Cycles

section Progress

def IsAct (op : LoopOp) : Prop := ∃ action, op = .act action

def IsCheck (op : LoopOp) : Prop := isCheck op = true

/-- A check is answered with true, and a cycle begins. -/
def begins : LoopEvent T Time → Bool
  | ⟨_, .shouldContinue _, (going : Bool), _⟩ => going
  | _ => false

/-- Some due time would lie behind the last date. -/
def Overflows (heartbeat sync : JitteredInterval) (_ : Panic) (now : Time) : Prop :=
  ∃ action, maxTime < now + 2 * baseOf heartbeat sync action

variable {heartbeat sync : JitteredInterval} {P : LoopOp → Prop} {s : Scheduler} {now : Time}

theorem steadyClock_answers (now : Time) (op : LoopOp) :
    ∃ answer later, steadyClock (T := T) now op answer later := by
  cases op with
  | now => exact ⟨now, now, le_refl _, le_refl _, le_refl _⟩
  | nextDelay action interval =>
    exact ⟨interval.base, now, le_refl _, le_refl _, Nat.le_mul_of_pos_left _ (by decide)⟩
  | sleep duration =>
    exact ⟨(), now + duration, Int.le_add_of_nonneg_right (Int.natCast_nonneg _), le_refl _⟩
  | shouldContinue cycle => exact ⟨true, now, le_refl _, trivial⟩
  | act action => exact ⟨.ok (), now, le_refl _, trivial⟩
  | contact action => exact ⟨.ok (), now, le_refl _, trivial⟩
  | isRequested => exact ⟨true, now, le_refl _, trivial⟩
  | threadSleep chunk => exact ⟨(), now, le_refl _, trivial⟩
  | attempt attempt => exact ⟨.error .enrollmentTransport, now, le_refl _, trivial⟩
  | backoffDelay attempt => exact ⟨(0 : Nat), now, le_refl _, trivial⟩

theorem waitDue_comes : ComesTo steadyClock P
    (Ends (Overflows heartbeat sync) fun _ later => s.nextDue ≤ later)
    (waitDue (T := T) (fun duration => ask (.sleep duration)) s).run now 2 := by
  refine ComesTo.andThen (Q := fun (reading : Time) later => reading ≤ later) (n := 1) (m := 1)
    (comesTo_perform (steadyClock_answers _ _) fun _ _ henv => henv.2.2) fun reading now hread => ?_
  dsimp only
  split
  · rename_i hwait
    refine comesTo_perform (steadyClock_answers _ _) fun _ later henv => ?_
    have hslept : now + ((s.nextDue - reading).toNat : ℤ) ≤ later := henv.2
    rw [Int.toNat_of_nonneg hwait.le] at hslept
    linarith
  · rename_i hwait
    exact (sub_nonpos.mp (not_lt.mp hwait)).trans hread

/-- A due time is booked, unless the date overflows. -/
theorem dueFrom_comes {moment : Time} {action : PollAction} (hnow : moment ≤ now) :
    ComesTo steadyClock P (Ends (Overflows heartbeat sync) fun _ later => moment ≤ later)
      (dueFrom (T := T) moment action (intervalOf heartbeat sync action)).run now 1 := by
  refine ComesTo.andThen (Q := fun (delay : Nat) later => moment ≤ later ∧
    delay ≤ 2 * baseOf heartbeat sync action) (n := 1) (m := 0)
    (comesTo_perform (steadyClock_answers _ _) fun _ _ henv => ⟨hnow.trans henv.1, henv.2.2⟩)
    fun delay later ⟨hlater, hlong⟩ => ?_
  unfold addDuration
  split
  · exact hlater
  · rename_i hdate
    have hdelay : (delay : ℤ) ≤ 2 * baseOf heartbeat sync action := by exact_mod_cast hlong
    exact ⟨action, lt_of_lt_of_le (not_le.mp hdate) (by linarith)⟩

/-- A cadence that is due is taken. -/
theorem take_comes {moment : Time} {action : PollAction}
    (hinterval : ∀ action, s.interval action = intervalOf heartbeat sync action)
    (hnow : moment ≤ now) : ComesTo steadyClock P
    (Ends (Overflows heartbeat sync) fun taken later => moment ≤ later ∧
      taken.1 = (if s.dueOf action ≤ moment then [action] else []) ∧
      (∀ other, taken.2.interval other = intervalOf heartbeat sync other) ∧
      ∀ other, other ≠ action → taken.2.dueOf other = s.dueOf other)
    (s.take (T := T) moment action).run now 1 := by
  unfold Scheduler.take
  split
  · rw [hinterval action]
    refine ComesTo.andThen (n := 1) (m := 0) (dueFrom_comes hnow) fun due later hlater => ?_
    refine ⟨hlater, rfl, fun other => ?_, fun other hother => ?_⟩
    · rw [← hinterval other]
      cases action <;> rfl
    · cases action <;> cases other <;> first | rfl | exact absurd rfl hother
  · exact ⟨hnow, rfl, hinterval, fun _ _ => rfl⟩

/-- Behind the earlier due time something is taken. -/
theorem takeDue_comes {moment : Time}
    (hinterval : ∀ action, s.interval action = intervalOf heartbeat sync action)
    (hnow : moment ≤ now) (hdue : s.nextDue ≤ moment) : ComesTo steadyClock P
    (Ends (Overflows heartbeat sync) fun taken _ => taken.1 ≠ [] ∧ taken.1.length ≤ 2)
    (s.takeDue (T := T) moment).run now 2 := by
  refine ComesTo.andThen (n := 1) (m := 1) (take_comes hinterval hnow) ?_
  rintro ⟨heartbeats, s₁⟩ later ⟨hlater, hheartbeats, hintervals, hkept⟩
  refine ComesTo.andThen (n := 1) (m := 0) (take_comes hintervals hlater) ?_
  rintro ⟨syncs, s₂⟩ after ⟨_, hsyncs, _⟩
  show heartbeats ++ syncs ≠ [] ∧ (heartbeats ++ syncs).length ≤ 2
  dsimp only at hheartbeats hsyncs
  rw [hheartbeats, hsyncs, hkept .bundleSync (by decide)]
  rcases min_le_iff.mp hdue with hfirst | hsecond
  · rw [if_pos (show s.dueOf .heartbeat ≤ moment from hfirst)]
    split <;> simp
  · rw [if_pos (show s.dueOf .bundleSync ≤ moment from hsecond)]
    split <;> simp

theorem runActions_comes (actions : List PollAction) : ComesTo steadyClock P
    (Ends (Overflows heartbeat sync) fun _ _ => True) (runActions (T := T) actions).run now
    actions.length := by
  induction actions generalizing now with
  | nil => trivial
  | cons action rest ih =>
    rw [List.length_cons, Nat.add_comm]
    exact ComesTo.andThen (Q := fun _ _ => True) (n := 1)
      (comesTo_perform (steadyClock_answers _ _) fun _ _ _ => trivial) fun _ _ _ => ih

/-- The cycle waits, reads the clock and takes something. -/
theorem pollCycle_comes {m : Nat} {Q : Scheduler → Time → Prop}
    (hinterval : ∀ action, s.interval action = intervalOf heartbeat sync action)
    (hrest : ∀ (taken : List PollAction × Scheduler) later, taken.1 ≠ [] → taken.1.length ≤ 2 →
      ComesTo steadyClock P (Ends (Overflows heartbeat sync) Q)
        (do runActions taken.1; pure taken.2 : LoopAction T Scheduler).run later m) :
    ComesTo steadyClock P (Ends (Overflows heartbeat sync) Q)
      (pollCycle (T := T) (fun duration => ask (.sleep duration)) s).run now
        (2 + (1 + (2 + m))) := by
  refine ComesTo.andThen waitDue_comes fun _ now hdue => ?_
  refine ComesTo.andThen (Q := fun (moment : Time) later => s.nextDue ≤ moment ∧ moment ≤ later)
    (comesTo_perform (steadyClock_answers _ _)
      fun _ _ henv => ⟨le_trans hdue henv.2.1, henv.2.2⟩) fun moment later h => ?_
  exact ComesTo.andThen (takeDue_comes hinterval h.2 h.1) fun taken after htaken =>
    hrest taken after htaken.1 htaken.2

theorem cycle_comes_act {f : Scheduler → LoopAction T Scheduler}
    (hinterval : ∀ action, s.interval action = intervalOf heartbeat sync action) :
    ComesTo steadyClock IsAct (Ends (Overflows heartbeat sync) fun _ _ => False)
      (pollCycle (fun duration => ask (.sleep duration)) s >>= f).run now 5 := by
  refine ComesTo.andThen (Q := fun _ _ => False) (n := 5) (m := 0) (pollCycle_comes (m := 0)
    hinterval fun taken later hsome _ => ?_) fun _ _ h => h.elim
  obtain ⟨actions, s'⟩ := taken
  cases actions with
  | nil => exact absurd rfl hsome
  | cons action rest => exact comesTo_here ⟨action, rfl⟩

/-- The loop that is unrolled further comes to its next check. -/
theorem cycle_comes_check {cycle : UInt64} {fuel : Nat}
    (hinterval : ∀ action, s.interval action = intervalOf heartbeat sync action) :
    ComesTo steadyClock IsCheck (Ends (Overflows heartbeat sync) fun _ _ => False)
      (do
        let s ← pollCycle (fun duration => ask (.sleep duration)) s
        runPolling (fun duration => ask (.sleep duration))
          (fun cycle => ask (.shouldContinue cycle)) s cycle (fuel + 1) :
            LoopAction T Scheduler).run now 7 := by
  refine ComesTo.andThen (Q := fun _ _ => True) (n := 7) (m := 0) (pollCycle_comes (m := 2)
    hinterval fun taken later _ hlength => ?_) fun s' later _ => comesTo_here rfl
  refine ComesTo.mono (ComesTo.andThen (Q := fun _ _ => True) (m := 0)
    (runActions_comes taken.1) fun _ _ _ => trivial) hlength

theorem calls_dueFrom {Q : LoopOp → Prop}
    (hdraw : ∀ action interval, Q (.nextDelay action interval)) (moment : Time)
    (action : PollAction) (interval : JitteredInterval) :
    (dueFrom (T := T) moment action interval).run.Calls Q :=
  calls_bind (calls_perform (hdraw _ _)) fun _ => trivial

theorem calls_take {Q : LoopOp → Prop} (hdraw : ∀ action interval, Q (.nextDelay action interval))
    (s : Scheduler) (moment : Time) (action : PollAction) :
    (s.take (T := T) moment action).run.Calls Q := by
  unfold Scheduler.take
  split
  · exact calls_bind (calls_dueFrom hdraw _ _ _) fun _ => trivial
  · trivial

theorem calls_pollCycle (s : Scheduler) :
    (pollCycle (T := T) (fun duration => ask (.sleep duration)) s).run.Calls
      fun op => isCheck op = false := by
  have hwait : (waitDue (T := T) (fun duration => ask (.sleep duration)) s).run.Calls
      fun op => isCheck op = false := by
    refine calls_bind (calls_perform rfl) fun now => ?_
    dsimp only
    split
    · exact calls_perform rfl
    · trivial
  have hact : ∀ actions, (runActions (T := T) actions).run.Calls fun op => isCheck op = false := by
    intro actions
    induction actions with
    | nil => trivial
    | cons action rest ih => exact calls_bind (calls_perform rfl) fun _ => ih
  refine calls_bind hwait fun _ => calls_bind (calls_perform rfl) fun moment => ?_
  refine calls_bind (calls_bind (calls_take (fun _ _ => rfl) _ _ _) fun _ => ?_) fun _ => ?_
  · exact calls_bind (calls_take (fun _ _ => rfl) _ _ _) fun _ => trivial
  · exact calls_bind (hact _) fun _ => trivial

/-- A cycle keeps the intervals. -/
theorem pollCycle_keeps (s : Scheduler) : YieldsOk (fun s' => ∀ action,
    s'.interval action = s.interval action)
    (pollCycle (T := T) (fun duration => ask (.sleep duration)) s) := by
  have htake : ∀ (s : Scheduler) (moment : Time) (action : PollAction), YieldsOk
      (fun taken => ∀ other, taken.2.interval other = s.interval other)
      (s.take (T := T) moment action) := by
    intro s moment action
    unfold Scheduler.take
    split
    · refine (yieldsOk_trivial _).andThen fun due _ => yieldsOk_pure fun other => ?_
      cases action <;> cases other <;> rfl
    · exact yieldsOk_pure fun _ => rfl
  refine (yieldsOk_trivial _).andThen fun _ _ => (yieldsOk_trivial _).andThen fun moment _ => ?_
  refine YieldsOk.andThen (P := fun taken => ∀ action, taken.2.interval action = s.interval action)
    ((htake s moment .heartbeat).andThen fun first hfirst => ?_) fun taken htaken => ?_
  · exact (htake first.2 moment .bundleSync).andThen fun second hsecond =>
      yieldsOk_pure fun action => (hsecond action).trans (hfirst action)
  · exact (yieldsOk_trivial _).andThen fun _ _ => yieldsOk_pure htaken

variable {past : List (LoopEvent T Time)} {v v' : Time} {cycle : UInt64}
  {q : Program (loopSignature T) (Except Panic Scheduler)}

theorem countP_checks {events : List (LoopEvent T Time)}
    (h : ∀ e ∈ events, isCheck e.op = false) : events.countP (fun e => isCheck e.op) = 0 :=
  List.countP_eq_zero.mpr fun e he => Bool.eq_false_iff.mp (h e he)

/-- Behind a check that was answered with true another cycle is left, and the rest of the loop. -/
theorem runPolling_begun {fuel : Nat} {current : UInt64}
    (hinterval : ∀ action, s.interval action = intervalOf heartbeat sync action)
    (h : Leads steadyClock (runPolling (fun duration => ask (.sleep duration))
      (fun cycle => ask (.shouldContinue cycle)) s current fuel : LoopAction T Scheduler).run now
      (past ++ [⟨v, .shouldContinue cycle, true, v'⟩]) q v') :
    ∃ s' next left, q = (do
        let s ← pollCycle (fun duration => ask (.sleep duration)) s'
        runPolling (fun duration => ask (.sleep duration))
          (fun cycle => ask (.shouldContinue cycle)) s next left : LoopAction T Scheduler).run ∧
      (∀ action, s'.interval action = intervalOf heartbeat sync action) ∧
      past.countP (fun e => isCheck e.op) + left + 1 = fuel := by
  induction fuel generalizing s current past now with
  | zero => cases past <;> cases h
  | succ fuel ih =>
    cases past with
    | nil =>
      cases h with
      | step _ hrest =>
        obtain ⟨rfl, _⟩ := leads_nil hrest
        exact ⟨s, _, fuel, rfl, hinterval, by simp⟩
    | cons e past =>
      cases h with
      | step _ hrest =>
        rename_i answer w₁
        cases answer with
        | false =>
          have hnil := leads_done (a := (Except.ok s : Except Panic Scheduler)) hrest
          simp at hnil
        | true =>
          obtain ⟨s', w₂, first, rest, rfl, hfirst, hexec, hleads⟩ := leads_past
            (calls_pollCycle s) (by simp [isCheck]) hrest
          have hkept := exec_yields hexec (pollCycle_keeps s) s' rfl
          obtain ⟨s'', next, left, hq, hintervals, hfuel⟩ :=
            ih (fun action => (hkept action).trans (hinterval action)) hleads
          refine ⟨s'', next, left, hq, hintervals, ?_⟩
          rw [← hfuel]
          rw [List.countP_cons_of_pos rfl, List.countP_append, countP_checks hfirst]
          omega

theorem pollingLoop_begun {fuel : Nat}
    (h : Leads steadyClock (pollingLoop heartbeat sync fuel : LoopAction T Scheduler).run now
      (past ++ [⟨v, .shouldContinue cycle, true, v'⟩]) q v') :
    ∃ s' next left, q = (do
        let s ← pollCycle (fun duration => ask (.sleep duration)) s'
        runPolling (fun duration => ask (.sleep duration))
          (fun cycle => ask (.shouldContinue cycle)) s next left : LoopAction T Scheduler).run ∧
      (∀ action, s'.interval action = intervalOf heartbeat sync action) ∧
      past.countP (fun e => isCheck e.op) + left + 1 = fuel := by
  have hnew : ∀ now, (Scheduler.new (T := T) now heartbeat sync).run.Calls
      fun op => isCheck op = false := fun now =>
    calls_bind (calls_dueFrom (fun _ _ => rfl) _ _ _) fun _ =>
      calls_bind (calls_dueFrom (fun _ _ => rfl) _ _ _) fun _ => trivial
  have hkeeps : ∀ now, YieldsOk (fun s => ∀ action, s.interval action = intervalOf heartbeat sync
      action) (Scheduler.new (T := T) now heartbeat sync) := fun now =>
    (yieldsOk_trivial _).andThen fun _ _ => (yieldsOk_trivial _).andThen fun _ _ =>
      yieldsOk_pure fun action => by cases action <;> rfl
  have hcheck : ¬ isCheck (.shouldContinue cycle) = false := by simp [isCheck]
  obtain ⟨start, _, first, rest, rfl, hfirst, _, h⟩ := leads_past
    (P := fun op => isCheck op = false) (calls_perform rfl) hcheck h
  obtain ⟨s, _, second, rest, rfl, hsecond, hexec, h⟩ := leads_past (hnew start) hcheck h
  have hinterval := exec_yields hexec (hkeeps start) s rfl
  obtain ⟨_, _, third, rest, rfl, hthird, _, h⟩ := leads_past (P := fun op => isCheck op = false)
    (calls_perform rfl) hcheck h
  obtain ⟨_, _, fourth, rest, rfl, hfourth, _, h⟩ := leads_past (P := fun op => isCheck op = false)
    (calls_perform rfl) hcheck h
  obtain ⟨s', next, left, hq, hintervals, hfuel⟩ := runPolling_begun hinterval h
  refine ⟨s', next, left, hq, hintervals, ?_⟩
  simp only [List.countP_append, countP_checks hfirst, countP_checks hsecond,
    countP_checks hthird, countP_checks hfourth]
  omega

/-- What is left of the loop comes to an action within five calls, and to the next check within
seven if the loop is unrolled that far, unless the calendar ends. -/
def Progresses (heartbeat sync : JitteredInterval) (fuel : Nat) (past : List (LoopEvent T Time))
    (q : Program (loopSignature T) (Except Panic Scheduler)) (now : Time) : Prop :=
  ComesTo steadyClock IsAct (Ends (Overflows heartbeat sync) fun _ _ => False) q now 5 ∧
    (past.countP (fun e => isCheck e.op) < fuel →
      ComesTo steadyClock IsCheck (Ends (Overflows heartbeat sync) fun _ _ => False) q now 7)

theorem pollingLoop_progresses {fuel : Nat}
    (h : Leads steadyClock (pollingLoop heartbeat sync fuel : LoopAction T Scheduler).run now
      (past ++ [⟨v, .shouldContinue cycle, true, v'⟩]) q v') :
    Progresses heartbeat sync fuel (past ++ [⟨v, .shouldContinue cycle, true, v'⟩]) q v' := by
  obtain ⟨s, next, left, rfl, hinterval, hfuel⟩ := pollingLoop_begun h
  refine ⟨cycle_comes_act hinterval, fun hchecks => ?_⟩
  have hcount : (past ++ [(⟨v, .shouldContinue cycle, true, v'⟩ : LoopEvent T Time)]).countP
      (fun e => isCheck e.op) = past.countP (fun e => isCheck e.op) + 1 := by
    rw [List.countP_append]
    rfl
  obtain ⟨left, rfl⟩ := Nat.exists_eq_add_of_le' (show 1 ≤ left by omega)
  exact cycle_comes_check hinterval

end Progress

section Cycles

variable (heartbeat sync : JitteredInterval)

variable {heartbeat sync}

theorem on_time (hpositive : ∀ action, 0 < baseOf heartbeat sync action) {fuel : Nat}
    {now later : Time} {trace : List (LoopEvent T Time)} {result : Option (Except Panic Scheduler)}
    (h : Exec steadyClock (pollingLoop heartbeat sync fuel).run now trace result later)
    {v v' start : Time} {events : List (LoopEvent T Time)}
    (hstart : trace = ⟨v, .now, start, v'⟩ :: events) :
    ∀ past e rest, trace = past ++ e :: rest → OnTime heartbeat sync start past e := by
  rcases exec_perform_bind h with ⟨rfl, _⟩ | ⟨reading, first, others, rfl, henv, hothers⟩
  · cases hstart
  cases hstart
  have hcontact : ∀ s action, Meets steadyClock (OnTime heartbeat sync start)
      (Idle heartbeat sync start s) (ask (.contact action) : LoopAction T _).run
      (Returns Panics fun _ => Idle heartbeat sync start s) := fun s action =>
    meets_perform fun past now answer later h henv => ⟨trivial, h.1.next rfl rfl rfl (le_refl _)
      (h.1.reading.trans henv.1), h.2.next rfl rfl⟩
  have hcheck : ∀ s cycle, Meets steadyClock (OnTime heartbeat sync start)
      (Idle heartbeat sync start s) (ask (.shouldContinue cycle) : LoopAction T Bool).run
      (Returns Panics fun _ past now => Paced heartbeat sync start s [] past now ∧
        (timetable past).done = []) := fun s cycle =>
    meets_perform fun past now answer later h henv => ⟨h.2, h.1.next rfl rfl rfl (le_refl _)
      (h.1.reading.trans henv.1), by rw [timetable_append]; rfl⟩
  have hloop := Meets.andThen new_paced fun s => Meets.andThen (hcontact s .heartbeat) fun _ =>
    Meets.andThen (hcontact s .bundleSync) fun _ =>
      runPolling_meets hcheck (pollCycle_paced hpositive) fuel s 0
  have hevents := (hloop [⟨now, .now, start, v'⟩] v' events result later
    ⟨rfl, henv.2.2, rfl, rfl⟩ hothers).1
  rintro past e rest htrace
  rcases List.cons_eq_append_iff.mp htrace with ⟨rfl, hhead⟩ | ⟨past, rfl, rfl⟩
  · cases hhead
    trivial
  · exact hevents.middle

/-- Every cycle of the loop does exactly what is due, every cadence keeps its distances, and none
waits for more than so many executions of the other. Behind every check that was answered with true
the loop comes to an action within five calls, and to the next check within seven, unless the
calendar ends. -/
theorem polling_on_time (heartbeat sync : JitteredInterval)
    (hpositive : ∀ action, 0 < baseOf heartbeat sync action) {fuel : Nat} {now later : Time}
    {trace : List (LoopEvent T Time)} {result : Option (Except Panic Scheduler)}
    (h : Exec steadyClock (pollingLoop heartbeat sync fuel).run now trace result later)
    {v v' start : Time} {events : List (LoopEvent T Time)}
    (hstart : trace = ⟨v, .now, start, v'⟩ :: events) :
    (∀ past e rest, trace = past ++ e :: rest → OnTime heartbeat sync start past e) ∧
    ∀ past e rest, trace = past ++ e :: rest → begins e = true → ∃ q,
      Leads steadyClock (pollingLoop heartbeat sync fuel).run now (past ++ [e]) q e.after ∧
      Exec steadyClock q e.after rest result later ∧
      Progresses heartbeat sync fuel (past ++ [e]) q e.after := by
  refine ⟨on_time hpositive h hstart, ?_⟩
  rintro past e rest rfl hbegins
  rw [List.append_cons] at h
  obtain ⟨q, v, hleads, hexec⟩ := exec_leads h
  obtain rfl := leads_after hleads
  refine ⟨q, hleads, hexec, ?_⟩
  obtain ⟨w, op, answer, w'⟩ := e
  cases op with
  | shouldContinue cycle =>
    obtain rfl : answer = true := hbegins
    exact pollingLoop_progresses hleads
  | _ => cases hbegins

end Cycles

/-- When the executions of an action started. -/
def startTimes (trace : List (LoopEvent T Time)) (action : PollAction) : List Time :=
  (trace.filter fun e => e.op = .act action).map Event.before

/-- The first heartbeat takes a hundred seconds, and nothing else takes any time. -/
def slowFirst (now : Time) : (op : LoopOp) → Option (op.Answer Unit × Time)
  | .now => some (now, now)
  | .nextDelay _ interval => some (interval.base, now)
  | .sleep duration => some ((), now + duration)
  | .shouldContinue _ => some (true, now)
  | .act .heartbeat => some (.ok (),
      if now < ofSecs 100 then now + ofSecs 100 else now)
  | .act .bundleSync => some (.ok (), now)
  | .contact _ => some (.ok (), now)
  | .isRequested => some (false, now)
  | .threadSleep _ => some ((), now)
  | .attempt _ => some (.ok (), now)
  | .backoffDelay _ => some ((0 : Nat), now)

def slowRun : List (LoopEvent Unit Time) × Option (Except Panic Scheduler) × Time :=
  play (S := loopSignature Unit) (fun now op => slowFirst now op)
    (pollingLoop minutely minutely 2).run 0

theorem slowFirst_steady {now later : Time} {op : LoopOp} {answer : op.Answer Unit}
    (h : slowFirst now op = some (answer, later)) : steadyClock now op answer later := by
  cases op with
  | act action =>
    cases action with
    | heartbeat =>
      obtain ⟨_, rfl⟩ := Prod.mk.inj (Option.some.inj h)
      refine ⟨?_, trivial⟩
      split
      · exact Int.le_add_of_nonneg_right (Int.natCast_nonneg _)
      · exact le_refl _
    | bundleSync =>
      obtain ⟨_, rfl⟩ := Prod.mk.inj (Option.some.inj h)
      exact ⟨le_refl _, trivial⟩
  | sleep duration =>
    obtain ⟨_, rfl⟩ := Prod.mk.inj (Option.some.inj h)
    exact ⟨Int.le_add_of_nonneg_right (Int.natCast_nonneg _), le_refl _⟩
  | nextDelay action interval =>
    obtain ⟨rfl, rfl⟩ := Prod.mk.inj (Option.some.inj h)
    exact ⟨le_refl _, le_refl _, Nat.le_mul_of_pos_left _ (by decide)⟩
  | now =>
    obtain ⟨rfl, rfl⟩ := Prod.mk.inj (Option.some.inj h)
    exact ⟨le_refl _, le_refl _, le_refl _⟩
  | _ =>
    obtain ⟨_, rfl⟩ := Prod.mk.inj (Option.some.inj h)
    exact ⟨le_refl _, trivial⟩

theorem slowRun_exec : Exec steadyClock (pollingLoop minutely minutely 2).run 0 slowRun.1
    slowRun.2.1 slowRun.2.2 :=
  exec_play (fun _ _ _ _ h => slowFirst_steady h) _ _

theorem polling_on_time_slow : (∀ action, 0 < baseOf minutely minutely action) ∧
    (∀ past e rest, slowRun.1 = past ++ e :: rest → OnTime minutely minutely 0 past e) ∧
    ∃ past e rest q, slowRun.1 = past ++ e :: rest ∧ begins e = true ∧
      (past ++ [e]).countP (fun e => isCheck e.op) < 2 ∧
      Progresses minutely minutely 2 (past ++ [e]) q e.after := by
  have hpositive : ∀ action, 0 < baseOf minutely minutely action := by
    intro action
    cases action <;> decide
  obtain ⟨htime, hprogress⟩ := polling_on_time minutely minutely hpositive slowRun_exec
    (show slowRun.1 = ⟨0, .now, (0 : Time), 0⟩ :: slowRun.1.tail from rfl)
  let check : LoopEvent Unit Time := slowRun.1.get ⟨5, by decide +kernel⟩
  have hsplit : slowRun.1 = slowRun.1.take 5 ++ check :: slowRun.1.drop 6 := by
    have hdrop : slowRun.1.drop 5 = check :: slowRun.1.drop 6 :=
      List.drop_eq_getElem_cons (by decide +kernel)
    rw [← hdrop, List.take_append_drop]
  have hbegins : begins check = true := by decide +kernel
  obtain ⟨q, _, _, hq⟩ := hprogress _ _ _ hsplit hbegins
  exact ⟨hpositive, htime, _, _, _, q, hsplit, hbegins, by decide +kernel, hq⟩

/-- Two synchronisations of a run start at the same time, with an interval of a minute. -/
theorem starts_together :
    ∃ (trace : List (LoopEvent Unit Time)) (result : Option (Except Panic Scheduler))
      (later : Time), Exec steadyClock (pollingLoop minutely minutely 2).run 0 trace result later ∧
      ¬ Spaced (baseOf minutely minutely .bundleSync : ℤ) (startTimes trace .bundleSync) :=
  ⟨_, _, _, slowRun_exec, by unfold Spaced; decide +kernel⟩

end MayflyAgent.PollCycles
