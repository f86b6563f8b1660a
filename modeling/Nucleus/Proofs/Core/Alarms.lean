import Nucleus.Proofs.Core.Transfers
import Nucleus.Proofs.Task.Expiry

/-!
# Alarms

The core adds a timer so many ticks from now, and each interrupt is one tick of the timers. A timer
is then delivered once, by the tick at which it expires.

* `timers_addTimer`: adding a timer adds it to the timers, if its tick can be counted.
* `alarm_rings_once`: what becomes of every timer, from the first tick on.
-/

namespace Nucleus.Core
open Platform

theorem eval_withTimers {α : Type} (f : Timers → CoreM (α × Timers)) (c : Core) :
    eval (withTimers f) c =
      (eval (f c.timers.value) { c with
        timers := c.timers.lock
        events := c.events ++ contention c.timers.held .timers }).map fun r =>
          (r.1.1, { r.2 with timers := ⟨false, r.1.2⟩ }) := by
  simp only [withTimers, eval_bind, eval_get, eval_noteContention, eval_modify, eval_pure,
    Except.bind, SpinLock.value_lock, SpinLock.unlock]
  cases eval (f c.timers.value) { c with
    timers := c.timers.lock
    events := c.events ++ contention c.timers.held .timers } <;> rfl

theorem timers_addTimer (c : Core) (ticks : Nat) (value : Int) (owner : TaskId) :
    match eval (addTimer ticks value owner) c with
    | .ok (_, c') => c'.tasks = c.tasks ∧
        c'.timers.value = c.timers.value.add (.user (c.timers.value.now + ticks) value owner)
    | .error p => p = .overflow ∧ Word.bound ≤ c.timers.value.now + ticks := by
  cases ran : eval (addTimer ticks value owner) c with
  | error p => exact addTimer_eq_error c ticks value owner ran
  | ok r =>
    rw [addTimer, eval_masked, eval_withTimers] at ran
    simp only [eval_bind, check, eval_checked, Checked.value_run_check] at ran
    cases counted : Word.add? c.timers.value.now ticks with
    | error p =>
      rw [counted] at ran
      cases ran
    | ok timeout =>
      obtain ⟨-, rfl⟩ := Word.add?_eq_ok.mp counted
      rw [counted] at ran
      cases ran
      exact ⟨rfl, rfl⟩

theorem timers_tick (c : Core) :
    (eval tick c).map (fun r => (r.1, r.2.timers.value, r.2.tasks.value)) =
      (c.timers.value.tick c.tasks.value).run.value := by
  rw [eval_tick]
  cases (c.timers.value.tick c.tasks.value).run.value <;> rfl

end Nucleus.Core

namespace Nucleus.Timers
open Platform

/-- A tick delivers what expires with it, in the order of expiry, to those who exist, and leaves
nothing overdue. It fails only at the end of time. -/
theorem delivers_tick {set : List Alarm} {fired : List (List Timer)} {ts : Timers}
    (kept : Kept set fired ts) (s : Scheduler) :
    match (ts.tick s).run.value with
    | .ok (_, ts', s') => Expires set ts s ts' s' ∧
        ∀ id, s'.mailbox? id = (s.mailbox? id).map fun mail =>
          mail ++ (ts.firing.filter fun t => t.owner = id).map Timer.message
    | .error p => p = .overflow ∧ Word.bound ≤ ts.now + 1 + preemptionPeriod := by
  cases ticked : (ts.tick s).run.value with
  | error p => exact tick_eq_error ticked
  | ok r =>
    have expires := expires_tick kept ticked
    refine ⟨expires, fun id => ?_⟩
    rw [expires.sent]
    exact mailbox?_sendAll ts.firing s id

/-- **Timers fire once and on time.** However timers are added and ticks go by, each timer that was
ever added has been fired by the tick at which it expired, or is pending and expires at a later
one; the next tick puts a message for each that expires with it at the end of its owner's mailbox.
The loop of a tick ends after no more turns than timers were pending. The core adds and ticks
likewise. -/
theorem alarm_rings_once :
    (∀ (main : TaskId) (set : List Alarm) (fired : List (List Timer)) (ts : Timers)
      (s : Scheduler), Timed main set fired ts s →
      Kept set fired ts ∧
      (match (ts.tick s).run.value with
        | .ok (_, ts', s') => Expires set ts s ts' s' ∧
            ∀ id, s'.mailbox? id = (s.mailbox? id).map fun mail =>
              mail ++ (ts.firing.filter fun t => t.owner = id).map Timer.message
        | .error p => p = .overflow ∧ Word.bound ≤ ts.now + 1 + preemptionPeriod) ∧
      (ts.now + 1 < Word.bound → ∃ n, n ≤ ts.pending.length ∧
        Turns n { ts with now := ts.now + 1 } s (ts.tick s).run.value)) ∧
    (∀ (c : Core) (ticks : Nat) (value : Int) (owner : TaskId),
      match Core.eval (Core.addTimer ticks value owner) c with
      | .ok (_, c') => c'.tasks = c.tasks ∧
          c'.timers.value = c.timers.value.add (.user (c.timers.value.now + ticks) value owner)
      | .error p => p = .overflow ∧ Word.bound ≤ c.timers.value.now + ticks) ∧
    ∀ c : Core, (Core.eval Core.tick c).map
      (fun r => (r.1, r.2.timers.value, r.2.tasks.value)) =
        (c.timers.value.tick c.tasks.value).run.value := by
  refine ⟨?timers, Core.timers_addTimer, Core.timers_tick⟩
  case timers =>
    intro main set fired ts s timed
    have kept := timed_kept timed
    exact ⟨kept, delivers_tick kept s, turns_tick kept s⟩

/-- Two timers of the main task are overdue when the first tick comes, in the wrong order, and one
has no owner. -/
theorem alarm_rings_overdue :
    let s := (Scheduler.new 0 0).value
    let set : List Alarm := [⟨.user 0 7 1, 0⟩, ⟨.user 0 5 1, 0⟩, ⟨.user 1 3 9, 0⟩]
    let ts := ((((Timers.new 1).add (.user 0 7 1)).add (.user 0 5 1)).add (.user 1 3 9))
    ∃ ts' s', Timed 1 set [] ts s ∧ (ts.tick s).run.value = .ok (false, ts', s') ∧
      ts.firing.Perm (Alarm.pick set (· = ts'.now)) ∧
      s'.mailbox? 1 = some [.timerTimeout 0 5, .timerTimeout 0 7] ∧ s'.mailbox? 9 = none ∧
      Kept set [ts.firing] ts' := by
  intro s set ts
  have timed : Timed 1 set [] ts s := .add 1 3 9 (.add 0 5 1 (.add 0 7 1 (.start s)))
  have ticked : (ts.tick s).run.value = .ok (_, _, _) := rfl
  have delivers := (alarm_rings_once.1 1 set [] ts s timed).2.1
  have timed' := timed.tick ticked
  rw [ticked] at delivers
  exact ⟨_, _, timed, ticked, delivers.1.expired, (delivers.2 1).trans (by decide),
    (delivers.2 9).trans (by decide), (alarm_rings_once.1 1 set _ _ _ timed').1⟩

end Nucleus.Timers
