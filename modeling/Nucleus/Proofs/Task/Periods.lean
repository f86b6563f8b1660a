import Mathlib.Data.List.Perm.Basic
import Nucleus.Proofs.Task.Expiry

/-!
# Periods

The preemption timer among all the others. It stands on the same list, and when it is due depends
on it alone: it is armed for the next multiple of the period, fires when that has come, and is armed
again for the one after.

* `nextTurn`: the multiple that the timer is armed for.
* `fire_preemptions`: firing answers whether a preemption timer was due, and arms each again.
* `Periodic`: the timer is pending once, for the next multiple.
* `periodic_add`, `periodic_tick`, `timed_periodic`: it always is, and a tick answers whether its
  own number is a multiple.
* `perm_set`, `length_pending`: beside it just those timers are pending that no tick has fired.
-/

namespace Nucleus
open Platform

namespace Timer

/-- The preemption timers of a list. -/
def preemptions (us : List Timer) : List Timer := us.filter Timer.preemption

theorem preemptions_insert (t : Timer) (us : List Timer) :
    (preemptions (t.insert us)).Perm (preemptions (t :: us)) :=
  (perm_insert t us).filter _

theorem preemptions_cons_of_user {t : Timer} (user : t.preemption = false) (us : List Timer) :
    preemptions (t :: us) = preemptions us := by
  simp [preemptions, user]

theorem preemptions_cons {t : Timer} (preempts : t.preemption = true) (us : List Timer) :
    preemptions (t :: us) = t :: preemptions us := by
  simp [preemptions, preempts]

theorem length_eq (us : List Timer) : us.length = (preemptions us).length + (users us).length :=
  us.length_eq_length_filter_add Timer.preemption

end Timer

namespace Timers

/-- The first multiple of the period that comes after tick `n`. -/
def nextTurn (n : Nat) : Nat := (n / preemptionPeriod + 1) * preemptionPeriod

theorem nextTurn_le (n : Nat) : nextTurn n ≤ n + 1 ↔ preemptionPeriod ∣ n + 1 := by
  simp only [nextTurn, preemptionPeriod]
  omega

theorem nextTurn_succ (n : Nat) :
    nextTurn (n + 1) =
      if preemptionPeriod ∣ n + 1 then n + 1 + preemptionPeriod else nextTurn n := by
  unfold nextTurn preemptionPeriod
  split <;> omega

variable {ts ts' : Timers} {s s' : Scheduler} {switch : Bool} {main : TaskId}

/-- Firing answers whether a preemption timer was due, and arms each that was again. -/
theorem fire_preemptions (due : List Timer) : ∀ {ts ts' : Timers} {s s' : Scheduler}
    {switch : Bool}, (fire due ts s).run.value = .ok (switch, ts', s') →
    switch = decide (Timer.preemptions due ≠ []) ∧
      (Timer.preemptions ts'.pending).Perm
        ((Timer.preemptions due).map
          (fun t => .preempting (ts.now + preemptionPeriod) t.owner) ++
        Timer.preemptions ts.pending) := by
  induction due with
  | nil =>
    intro ts ts' s s' switch fired
    cases fired
    exact ⟨rfl, .refl _⟩
  | cons t due ih =>
    intro ts ts' s s' switch fired
    cases fire_cons_eq_ok fired with
    | inl armed =>
      obtain ⟨kind, answer, _, later⟩ := armed
      obtain ⟨-, rest⟩ := ih later
      let again : Timer := .preempting (ts.now + preemptionPeriod) t.owner
      have armed : (Timer.preemptions (again.insert ts.pending)).Perm
          (again :: Timer.preemptions ts.pending) := Timer.preemptions_insert again ts.pending
      rw [Timer.preemptions_cons kind]
      refine ⟨answer.trans (by simp), rest.trans ?_⟩
      exact (armed.append_left _).trans List.perm_middle
    | inr user =>
      rw [Timer.preemptions_cons_of_user user.1]
      exact ih user.2

/-- Pending are a preemption timer, for the next multiple of the period, and user timers. -/
structure Periodic (main : TaskId) (ts : Timers) : Prop where
  ordered : ts.pending.Pairwise Timer.NoLater
  armed : Timer.preemptions ts.pending = [.preempting (nextTurn ts.now) main]

theorem periodic_new (main : TaskId) : Periodic main (.new main) :=
  ⟨List.pairwise_singleton _ _, by simp [new, Timer.preemptions, Timer.preempting, nextTurn]⟩

theorem periodic_add (periodic : Periodic main ts) (timeout : Nat) (value : Int) (owner : TaskId) :
    Periodic main (ts.add (.user timeout value owner)) := by
  obtain ⟨ordered, armed⟩ := periodic
  have same := Timer.preemptions_insert (.user timeout value owner) ts.pending
  rw [Timer.preemptions_cons_of_user rfl, armed] at same
  exact ⟨Timer.ordered_insert _ ordered, same.eq_singleton⟩

/-- A tick answers whether its number is a multiple of the period, and the timer is armed for the
next one. -/
theorem periodic_tick (periodic : Periodic main ts)
    (ticked : (ts.tick s).run.value = .ok (switch, ts', s')) :
    switch = decide (preemptionPeriod ∣ ts.now + 1) ∧ Periodic main ts' := by
  obtain ⟨ordered, armed⟩ := periodic
  obtain ⟨now, -, ordered', -, -⟩ := tick_eq_ok ordered ticked
  rw [value_tick] at ticked
  cases counted : Word.add? ts.now 1 with
  | error p =>
    rw [counted] at ticked
    cases ticked
  | ok n =>
    obtain ⟨-, rfl⟩ := Word.add?_eq_ok.mp counted
    have line : ({ ts with now := ts.now + 1 } : Timers).pending.Pairwise Timer.NoLater := ordered
    rw [counted] at ticked
    simp only [Except.bind, due_eq_filter line, later_eq_filter line] at ticked
    obtain ⟨answer, left⟩ := fire_preemptions _ ticked
    let timer : Timer := .preempting (nextTurn ts.now) main
    -- the one preemption timer is among those that are due, or among those that are left
    have one (p : Timer → Bool) : Timer.preemptions (ts.pending.filter p) =
        if p timer then [timer] else [] := by
      have swapped : Timer.preemptions (ts.pending.filter p) =
          (Timer.preemptions ts.pending).filter p := by
        simp only [Timer.preemptions, List.filter_filter, Bool.and_comm]
      rw [swapped, armed, List.filter_cons, List.filter_nil]
    rw [one] at answer
    rw [one, one] at left
    by_cases turn : preemptionPeriod ∣ ts.now + 1
    case pos =>
      have due : timer.timeout ≤ ts.now + 1 := (nextTurn_le ts.now).mpr turn
      have gone : ¬ ts.now + 1 < timer.timeout := Nat.not_lt.mpr due
      rw [if_pos (decide_eq_true due)] at answer
      rw [if_pos (decide_eq_true due), if_neg (by simpa using gone)] at left
      refine ⟨by simp [answer, turn], ordered', ?_⟩
      rw [now, nextTurn_succ, if_pos turn]
      exact left.eq_singleton
    case neg =>
      have later : ¬ timer.timeout ≤ ts.now + 1 := mt (nextTurn_le ts.now).mp turn
      have stays : ts.now + 1 < timer.timeout := Nat.lt_of_not_le later
      rw [if_neg (by simpa using later)] at answer
      rw [if_neg (by simpa using later), if_pos (decide_eq_true stays)] at left
      refine ⟨by simp [answer, turn], ordered', ?_⟩
      rw [now, nextTurn_succ, if_neg turn]
      exact left.eq_singleton

theorem exists_tick (s : Scheduler) (soon : ts.now + 1 + preemptionPeriod < Word.bound) :
    ∃ switch ts' s', (ts.tick s).run.value = .ok (switch, ts', s') := by
  cases ticked : (ts.tick s).run.value with
  | error p =>
    obtain ⟨-, late⟩ := tick_eq_error ticked
    exact absurd soon (Nat.not_lt.mpr late)
  | ok r => exact ⟨r.1, r.2.1, r.2.2, rfl⟩

/-! ## Runs -/

variable {set : List Alarm} {fired : List (List Timer)}

theorem timed_periodic (timed : Timed main set fired ts s) : Periodic main ts := by
  induction timed with
  | start _ => exact periodic_new main
  | add timeout value owner _ ih => exact periodic_add ih timeout value owner
  | tick _ ticked ih => exact (periodic_tick ih ticked).2
  | meanwhile _ _ ih => exact ih

/-- The user timers that were added and that no tick has fired so far. -/
def undelivered (set : List Alarm) (fired : List (List Timer)) : List Timer :=
  (set.map Alarm.timer).diff fired.flatten

/-- Every user timer that was added has been fired or is pending, as often as it was added. -/
theorem perm_set (timed : Timed main set fired ts s) :
    (set.map Alarm.timer).Perm (fired.flatten ++ Timer.users ts.pending) := by
  induction timed with
  | start _ => exact .refl _
  | @add set fired ts s timeout value owner _ ih =>
    let t : Timer := .user timeout value owner
    have added : (Timer.users (t.insert ts.pending)).Perm (t :: Timer.users ts.pending) :=
      (Timer.perm_insert t ts.pending).filter _
    rw [List.map_append]
    refine (ih.append_right _).trans ?_
    rw [List.append_assoc]
    exact (List.perm_append_singleton t _).trans added.symm |>.append_left _
  | @tick set fired ts ts' s s' switch timed ticked ih =>
    have kept := timed_kept timed
    obtain ⟨-, -, -, left, -⟩ := tick_eq_ok kept.ordered ticked
    have parts : (ts.firing ++ Timer.users ts'.pending).Perm (Timer.users ts.pending) := by
      rw [left, firing_eq_filter kept, Timer.users, Timer.users, ← List.filter_append]
      refine List.Perm.filter _ ?_
      simpa only [← Nat.not_le, decide_not] using
        List.filter_append_perm (fun t : Timer => decide (t.timeout ≤ ts.now + 1)) ts.pending
    rw [List.flatten_append, List.flatten_singleton, List.append_assoc]
    exact ih.trans (parts.symm.append_left _)
  | meanwhile _ _ ih => exact ih

theorem length_pending (timed : Timed main set fired ts s) :
    ts.pending.length = 1 + (undelivered set fired).length := by
  have left : (undelivered set fired).Perm (Timer.users ts.pending) := by
    rw [undelivered]
    refine ((perm_set timed).diff_right _).trans ?_
    induction fired.flatten with
    | nil => exact .refl _
    | cons t us ih => simpa using ih
  rw [Timer.length_eq, (timed_periodic timed).armed, left.length_eq, List.length_singleton]

end Timers

end Nucleus
