import Nucleus.Task.Timers

/-!
# Ticks

One tick without its log: timers fire in their order, each a message to its owner or a new period.

* `fire_preemption`, `fire_user`, `fire_cons_eq_ok`: the two kinds of a due timer.
* `tick_keeps`: what a tick does to the scheduler is sending messages.
* `tick_eq_error`: a tick fails only at the end of time.
-/

namespace Nucleus.Timers
open Platform

theorem value_deliver (s : Scheduler) (t : Timer) :
    (deliver s t).value = (s.send t.owner t.message).value.2 := by
  simp only [deliver, Logged.value_bind]
  split
  · next sent => rw [sent, Logged.value_pure]
  · next sent => rw [sent, Logged.value_bind, Logged.value_pure]

variable {t : Timer} {rest : List Timer} {ts : Timers} {s : Scheduler}

theorem fire_preemption (preempts : t.preemption = true) :
    (fire (t :: rest) ts s).run.value =
      (Word.add? ts.now preemptionPeriod).bind fun timeout =>
        (fire rest (ts.add (.preempting timeout t.owner)) s).run.value.map fun r =>
          (true, r.2) := by
  rw [fire, if_pos preempts, Checked.value_run_bind, Checked.value_run_check]
  congr 1
  funext timeout
  rw [Checked.value_run_bind]
  cases (fire rest (ts.add (.preempting timeout t.owner)) s).run.value <;> rfl

theorem fire_user (user : t.preemption = false) :
    (fire (t :: rest) ts s).run.value =
      (fire rest ts (s.send t.owner t.message).value.2).run.value := by
  rw [fire, user, if_neg Bool.false_ne_true, Checked.value_run_bind, Checked.value_run_ofLogged,
    value_deliver]
  rfl

/-- The two ways in which the first timer of a list lets the rest fire. -/
theorem fire_cons_eq_ok {answer : Bool × Timers × Scheduler}
    (fired : (fire (t :: rest) ts s).run.value = .ok answer) :
    (t.preemption = true ∧ answer.1 = true ∧ ∃ due,
      (fire rest (ts.add (.preempting (ts.now + preemptionPeriod) t.owner)) s).run.value =
        .ok (due, answer.2)) ∨
    (t.preemption = false ∧
      (fire rest ts (s.send t.owner t.message).value.2).run.value = .ok answer) := by
  cases kind : t.preemption with
  | true =>
    rw [fire_preemption kind] at fired
    cases armed : Word.add? ts.now preemptionPeriod with
    | error p =>
      rw [armed] at fired
      cases fired
    | ok timeout =>
      obtain ⟨-, rfl⟩ := Word.add?_eq_ok.mp armed
      rw [armed] at fired
      cases done : (fire rest (ts.add (.preempting (ts.now + preemptionPeriod) t.owner)) s
          ).run.value with
      | error p =>
        simp only [Except.bind, done] at fired
        cases fired
      | ok r =>
        simp only [Except.bind, done] at fired
        cases fired
        exact .inl ⟨rfl, rfl, r.1, rfl⟩
  | false =>
    rw [fire_user kind] at fired
    exact .inr ⟨rfl, fired⟩

/-- What sending messages keeps is kept by the timers that fire. -/
theorem fire_keeps {Q : Scheduler → Prop}
    (sent : ∀ s id message, Q s → Q (s.send id message).value.2) (due : List Timer) :
    ∀ {ts : Timers} {s : Scheduler} {answer : Bool × Timers × Scheduler}, Q s →
      (fire due ts s).run.value = .ok answer → Q answer.2.2 := by
  induction due with
  | nil =>
    intro ts s answer holds done
    cases done
    exact holds
  | cons t rest ih =>
    intro ts s answer holds done
    cases fire_cons_eq_ok done with
    | inl armed =>
      obtain ⟨-, -, _, fired⟩ := armed
      have kept := ih holds fired
      exact kept
    | inr user => exact ih (sent _ _ _ holds) user.2

theorem now_fire (due : List Timer) :
    ∀ {ts : Timers} {s : Scheduler} {answer : Bool × Timers × Scheduler},
      (fire due ts s).run.value = .ok answer → answer.2.1.now = ts.now := by
  induction due with
  | nil =>
    intro ts s answer done
    cases done
    rfl
  | cons t rest ih =>
    intro ts s answer done
    cases fire_cons_eq_ok done with
    | inl armed =>
      obtain ⟨-, -, _, fired⟩ := armed
      have same := ih fired
      exact same
    | inr user => exact ih user.2

theorem fire_eq_error (due : List Timer) :
    ∀ {ts : Timers} {s : Scheduler} {p : Panic}, (fire due ts s).run.value = .error p →
      p = .overflow ∧ Word.bound ≤ ts.now + preemptionPeriod := by
  induction due with
  | nil =>
    intro ts s p failed
    cases failed
  | cons t rest ih =>
    intro ts s p failed
    cases kind : t.preemption with
    | true =>
      rw [fire_preemption kind] at failed
      by_cases fits : ts.now + preemptionPeriod < Word.bound
      · rw [Word.add?, if_pos fits] at failed
        cases fired : (fire rest (ts.add (.preempting (ts.now + preemptionPeriod) t.owner)) s
            ).run.value with
        | error q =>
          simp only [Except.bind, fired] at failed
          cases failed
          have late := ih fired
          exact late
        | ok r =>
          simp only [Except.bind, fired] at failed
          cases failed
      · rw [Word.add?, if_neg fits] at failed
        cases failed
        exact ⟨rfl, Nat.le_of_not_lt fits⟩
    | false =>
      rw [fire_user kind] at failed
      exact ih failed

theorem value_tick (ts : Timers) (s : Scheduler) :
    (ts.tick s).run.value = (Word.add? ts.now 1).bind fun now =>
      (fire { ts with now := now }.due
        { ts with now := now, pending := { ts with now := now }.later } s).run.value := by
  rw [tick, Checked.value_run_bind, Checked.value_run_check]

theorem tick_keeps {Q : Scheduler → Prop}
    (sent : ∀ s id message, Q s → Q (s.send id message).value.2)
    {answer : Bool × Timers × Scheduler} (holds : Q s)
    (done : (ts.tick s).run.value = .ok answer) : Q answer.2.2 := by
  rw [value_tick] at done
  cases late : Word.add? ts.now 1 with
  | error p =>
    rw [late] at done
    cases done
  | ok now =>
    rw [late] at done
    exact fire_keeps sent _ holds done

theorem now_tick {answer : Bool × Timers × Scheduler} (done : (ts.tick s).run.value = .ok answer) :
    answer.2.1.now = ts.now + 1 := by
  rw [value_tick] at done
  cases counted : Word.add? ts.now 1 with
  | error p =>
    rw [counted] at done
    cases done
  | ok now =>
    rw [counted] at done
    obtain ⟨-, rfl⟩ := Word.add?_eq_ok.mp counted
    exact now_fire _ done

theorem tick_eq_error {p : Panic} (failed : (ts.tick s).run.value = .error p) :
    p = .overflow ∧ Word.bound ≤ ts.now + 1 + preemptionPeriod := by
  rw [value_tick] at failed
  by_cases fits : ts.now + 1 < Word.bound
  · rw [Word.add?, if_pos fits] at failed
    exact fire_eq_error _ failed
  · rw [Word.add?, if_neg fits] at failed
    cases failed
    exact ⟨rfl, by omega⟩

end Nucleus.Timers
