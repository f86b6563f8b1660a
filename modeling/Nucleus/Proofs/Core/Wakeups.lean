import Nucleus.Proofs.Core.Transfers
import Nucleus.Proofs.Task.Waiting

/-!
# Wakeups

A task that waits in `receiveOrSleep` looks into its mailbox and goes to sleep under one lock, and
whoever writes to it wakes it under the same lock. In between the task may find itself anywhere.

* `Later`: a run in which tasks are put to sleep only to wait for a message, act by act or seen in
  the midst of an act.
* `Rounds`: how `receiveOrSleep` comes to its last attempt.
* `wakeups_kept`: no task that has run sleeps on a message, and what `receiveOrSleep` answers.
-/

namespace Nucleus

/-- Whether an act puts a task to sleep that does not wait for a message. -/
def Act.sleeps : Act → Bool
  | .call (.sleep _) => true
  | _ => false

namespace Core
variable {s : Scheduler} {id j : TaskId} {c c' d : Core} {depth : Nat}

/-! ## Attempts -/

theorem attended_attempt (h : s.Attended id) (j : TaskId) : (attempt j s).value.2.Attended id := by
  refine attempt_cases (P := fun r => r.2.Attended id) (fun _ => h) ?mail ?empty
  case mail =>
    intro t m rest _ _
    exact s.left_receive j ▸ Scheduler.attended_perform h (.receive j) rfl
  case empty =>
    intro t known none
    exact Scheduler.attended_sleep h (by rw [Scheduler.mailbox?, known, Option.map_some, none])

theorem ofSleep_ne_received (r : Except TaskError (Option Switch)) (m : Message) :
    Attempt.ofSleep r ≠ .received m := by
  rcases r with e | _ | w <;> rintro ⟨⟩

theorem ofSleep_eq_stuck {r : Except TaskError (Option Switch)} :
    Attempt.ofSleep r = .stuck ↔ r = .ok none := by
  rcases r with e | _ | w <;> simp [Attempt.ofSleep]

theorem mailbox?_of_received {m : Message} (got : (attempt id s).value.1 = .received m) :
    ∃ rest, s.mailbox? id = some (m :: rest) ∧
      (attempt id s).value.2.mailbox? id = some rest := by
  revert got
  refine attempt_cases (P := fun r => r.1 = .received m → ∃ rest, s.mailbox? id = some (m :: rest) ∧
    r.2.mailbox? id = some rest) ?unknown ?mail ?empty
  case unknown => rintro _ ⟨⟩
  case mail =>
    rintro t _ rest known mail ⟨⟩
    refine ⟨rest, ?_, ?_⟩ <;> simp [Scheduler.mailbox?, known, mail]
  case empty =>
    intro _ _ _ got
    exact absurd got (ofSleep_ne_received _ m)

theorem mailbox?_of_stuck (inv : s.Invariant) (stuck : (attempt id s).value.1 = .stuck) :
    s.mailbox? id = some [] ∧ (s.executing ≠ id ∨ id = s.idle) := by
  revert stuck
  refine attempt_cases (P := fun r => r.1 = .stuck → s.mailbox? id = some [] ∧
    (s.executing ≠ id ∨ id = s.idle)) ?unknown ?mail ?empty
  case unknown => rintro _ ⟨⟩
  case mail => rintro _ _ _ _ _ ⟨⟩
  case empty =>
    intro t known none stuck
    exact ⟨by rw [Scheduler.mailbox?, known, Option.map_some, none],
      Scheduler.executing_ne_of_sleep inv (ofSleep_eq_stuck.mp stuck)⟩

/-! ## Runs without other sleeps -/

/-- The scripts put tasks to sleep only to wait for a message. -/
def Wakeful (scripts : List (List Act)) : Prop := ∀ script ∈ scripts, ∀ a ∈ script, a.sleeps = false

theorem stable_attended (id : TaskId) :
    Stable (fun a => a.sleeps = false) fun s _ q => s.Attended id ∧ Wakeful q where
  perform _ _ _ op wakes holds := ⟨Scheduler.attended_perform holds.1 op wakes, holds.2⟩
  attempt _ _ _ j holds := ⟨attended_attempt holds.1 j, holds.2⟩
  sleep _ _ _ _ allowed _ := by cases allowed
  transfer _ _ _ _ holds := holds
  script _ _ script q holds := by
    obtain ⟨attended, wakeful⟩ := holds
    exact ⟨⟨attended, fun other later => wakeful other (.tail script later)⟩,
      wakeful script (.head q)⟩

/-- What `c` can come to while tasks are put to sleep only to wait for a message. By `schedule` and
`attempt` it is also seen in the midst of an act, and by `around` with anything else changed that
leaves the scheduler as it is. -/
inductive Later (c : Core) : Core → Prop where
  | now : Later c c
  | next {d d' : Core} {r : Answer} {events : List Event} (a : Act) : Later c d →
      a.sleeps = false → Wakeful d.scripts → (d.step a).run.value = .ok (r, events, d') → Later c d'
  | schedule {d : Core} (op : Scheduler.Operation) : Later c d → op.sleeps = false →
      Later c { d with tasks := .new (d.tasks.value.perform op).value.2 }
  | attempt {d : Core} (id : TaskId) : Later c d →
      Later c { d with tasks := .new (Core.attempt id d.tasks.value).value.2 }
  | around {d d' : Core} : Later c d → d'.tasks.value = d.tasks.value → Later c d'

theorem attended_step {c c' : Core} {a : Act} {r : Answer} {events : List Event}
    (h : c.tasks.value.Attended id) (wakes : a.sleeps = false) (wakeful : Wakeful c.scripts)
    (done : (c.step a).run.value = .ok (r, events, c')) : c'.tasks.value.Attended id := by
  have stable := stable_attended id
  obtain ⟨ran, -⟩ := step_eq_ok.mp done
  exact (stable.act (stable.away _) wakes _ _ _ ran ⟨h, wakeful⟩).1

theorem attended_later (h : c.tasks.value.Attended id) (later : Later c d) :
    d.tasks.value.Attended id := by
  induction later with
  | now => exact h
  | next a _ wakes wakeful done ih => exact attended_step ih wakes wakeful done
  | schedule op _ wakes ih => exact Scheduler.attended_perform ih op wakes
  | attempt j _ ih => exact attended_attempt ih j
  | around _ same ih => exact same ▸ ih

/-! ## Rounds -/

/-- From `c` to `d` the task `id` gave control away and came back, round after round. -/
inductive Rounds (away : CoreM Unit) (id : TaskId) : Core → Core → Prop where
  | none (c : Core) : Rounds away id c c
  | more {c d e : Core} : eval (round away id) c = .ok (.none, d) → Rounds away id d e →
      Rounds away id c e

/-- What an attempt answers to the caller, unless the caller was put to sleep. -/
def Attempt.answer? : Attempt → Option (Except TaskError (Option Message))
  | .refused e => some (.error e)
  | .received m => some (.ok (some m))
  | .stuck => some (.ok none)
  | .suspended _ => none

theorem round_eq_some {away : CoreM Unit} {a : Except TaskError (Option Message)}
    (done : eval (round away id) c = .ok (some a, c')) :
    (attempt id c.tasks.value).value.1.answer? = some a ∧
      c'.tasks.value = (attempt id c.tasks.value).value.2 := by
  obtain ⟨e, ran, tasks, -⟩ := masked_eq_ok done
  obtain ⟨r, d, tried, rest⟩ := eval_bind_eq_ok.mp ran
  rw [eval_withTasks] at tried
  cases tried
  cases ends : (attempt id c.tasks.value).value.1 with
  | refused | received | stuck =>
    rw [ends] at rest
    cases rest
    exact ⟨rfl, by rw [← tasks]⟩
  | suspended w =>
    rw [ends] at rest
    obtain ⟨_, _, -, back⟩ := eval_bind_eq_ok.mp rest
    cases back

/-- A round without an answer has put the task to sleep and given control away. -/
theorem round_eq_none {away : CoreM Unit} (done : eval (round away id) c = .ok (none, c')) :
    (∃ w, (attempt id c.tasks.value).value.1 = .suspended w) ∧
      ∃ d e, d.tasks.value = (attempt id c.tasks.value).value.2 ∧ d.scripts = c.scripts ∧
        eval away d = .ok ((), e) ∧ e.tasks = c'.tasks ∧ e.scripts = c'.scripts := by
  obtain ⟨e, ran, tasks, scripts⟩ := masked_eq_ok done
  obtain ⟨r, d, tried, rest⟩ := eval_bind_eq_ok.mp ran
  rw [eval_withTasks] at tried
  cases tried
  cases ends : (attempt id c.tasks.value).value.1 with
  | refused | received | stuck =>
    rw [ends] at rest
    cases rest
  | suspended w =>
    rw [ends] at rest
    obtain ⟨_, f, left, back⟩ := eval_bind_eq_ok.mp rest
    cases back
    obtain ⟨_, g, told, gone⟩ := eval_bind_eq_ok.mp left
    cases told
    refine ⟨⟨w, rfl⟩, _, _, ?_, ?_, gone, tasks, scripts⟩ <;> rfl

theorem answer?_eq_message {r : Attempt} {m : Message} :
    r.answer? = some (.ok (some m)) ↔ r = .received m := by
  cases r <;> simp [Attempt.answer?]

theorem answer?_eq_nothing {r : Attempt} : r.answer? = some (.ok none) ↔ r = .stuck := by
  cases r <;> simp [Attempt.answer?]

/-! ## Scripts run out -/

theorem stable_length (n : Nat) : Stable (fun _ => True) fun _ _ q => q.length ≤ n where
  perform _ _ _ _ _ holds := holds
  attempt _ _ _ _ holds := holds
  sleep _ _ _ _ _ holds := holds
  transfer _ _ _ _ holds := holds
  script _ _ _ _ holds := ⟨Nat.le_of_succ_le holds, fun _ _ => trivial⟩

/-- Every switch takes a script. With none left, control comes straight back. -/
theorem away_eq_ok {d e : Core} (deep : d.scripts.length ≤ depth)
    (done : eval (away depth) d = .ok ((), e)) :
    d.scripts = [] ∧ e = d ∨ e.scripts.length < d.scripts.length := by
  cases left : d.scripts with
  | nil =>
    cases depth with
    | zero =>
      cases done
      exact .inl ⟨rfl, rfl⟩
    | succ depth =>
      obtain ⟨_, _, seen, rest⟩ := eval_bind_eq_ok.mp done
      cases seen
      rw [left] at rest
      cases rest
      exact .inl ⟨rfl, rfl⟩
  | cons script others =>
    rw [left] at deep
    cases depth with
    | zero => cases deep
    | succ depth =>
      obtain ⟨_, _, seen, rest⟩ := eval_bind_eq_ok.mp done
      cases seen
      rw [left] at rest
      obtain ⟨_, f, taken, played⟩ := eval_bind_eq_ok.mp rest
      cases taken
      have stable := stable_length others.length
      have fewer := stable.play (stable.away depth) script (fun _ _ => trivial) _ _ _ played
        (Nat.le_refl _)
      exact .inr (Nat.lt_succ_of_le fewer)

theorem round_of_stuck {away : CoreM Unit} {a : Option (Except TaskError (Option Message))}
    (stuck : (attempt id c.tasks.value).value.1 = .stuck)
    (done : eval (round away id) c = .ok (a, c')) : a = some (.ok none) := by
  cases a with
  | none =>
    obtain ⟨⟨w, suspended⟩, -⟩ := round_eq_none done
    rw [stuck] at suspended
    cases suspended
  | some a =>
    obtain ⟨answer, -⟩ := round_eq_some done
    rw [stuck] at answer
    exact answer.symm

/-- The rounds of `receiveOrSleep` do not run out before its last attempt. -/
theorem exists_last_round {rounds : Nat} {a : Except TaskError (Option Message)}
    (deep : c.scripts.length ≤ depth) (enough : c.scripts.length + 2 ≤ rounds)
    (done : eval (receiveOrSleep (away depth) id rounds) c = .ok (a, c')) :
    ∃ d, Rounds (away depth) id c d ∧ eval (round (away depth) id) d = .ok (some a, c') := by
  induction rounds generalizing c with
  | zero => omega
  | succ rounds ih =>
    rw [receiveOrSleep_succ] at done
    obtain ⟨answer, d, first, rest⟩ := eval_bind_eq_ok.mp done
    cases answer with
    | some b =>
      cases rest
      exact ⟨c, .none c, first⟩
    | none =>
      obtain ⟨⟨w, suspended⟩, e, f, tasks, scripts, gone, tasks', scripts'⟩ := round_eq_none first
      rw [← scripts] at deep enough
      rcases away_eq_ok deep gone with ⟨none, rfl⟩ | fewer
      · -- nobody else ran, so the next attempt finds the task asleep
        have stuck := attempt_of_suspended suspended
        rw [← tasks, tasks'] at stuck
        obtain ⟨again, rfl⟩ := Nat.exists_eq_succ_of_ne_zero (n := rounds) (by omega)
        rw [receiveOrSleep_succ] at rest
        obtain ⟨answer, g, second, rest⟩ := eval_bind_eq_ok.mp rest
        obtain rfl := round_of_stuck (by rw [stuck]) second
        cases rest
        exact ⟨d, .more first (.none d), second⟩
      · rw [scripts'] at fewer
        obtain ⟨g, later, last⟩ := ih (by omega) (by omega) rest
        exact ⟨g, .more first later, last⟩

theorem reachable_rounds (reach : c.tasks.value.Reachable)
    (later : Rounds (away depth) id c d) : d.tasks.value.Reachable := by
  have stable := stable_of_perform (Q := Scheduler.Reachable) fun _ op reach => .next op reach
  induction later with
  | none => exact reach
  | more first _ ih => exact ih (stable.round (stable.away depth) id _ _ _ first reach)

theorem exists_last_attempt {m : Option Message} (deep : c.scripts.length ≤ depth)
    (done : eval (perform (away depth) (.call (.receiveOrSleep id))) c = .ok (.message m, c')) :
    ∃ d, Rounds (away depth) id c d ∧ eval (round (away depth) id) d = .ok (some (.ok m), c') := by
  obtain ⟨_, _, seen, rest⟩ := eval_bind_eq_ok.mp done
  cases seen
  rw [eval_map] at rest
  cases ran : eval (receiveOrSleep (away depth) id (c.scripts.length + 2)) c with
  | error p =>
    rw [ran] at rest
    cases rest
  | ok r =>
    rw [ran] at rest
    obtain ⟨e | m', d⟩ := r
    · cases rest
    · cases rest
      exact exists_last_round deep (Nat.le_refl _) ran

/-- **No wakeup is lost.** While tasks are put to sleep only to wait for a message, none that has
run at some time sleeps on a message. And `receiveOrSleep` answers, after however many rounds, with
the oldest message, or at its last attempt there was none and control could not be given away: the
task was not the executing one, or it was the idle task. Calls go at least as deep as there are
scripts left, those from outside exactly so. -/
theorem wakeups_kept :
    (∀ c d : Core, Reachable c → Later c d → ∀ id t, c.tasks.value.task? id = some t →
      t.running = true →
      ∃ u, d.tasks.value.task? id = some u ∧ (u.running = false → u.mailbox = [])) ∧
    ∀ c : Core, Reachable c → ∀ depth, c.scripts.length ≤ depth → ∀ id m c',
      eval (perform (away depth) (.call (.receiveOrSleep id))) c = .ok (.message m, c') →
      ∃ d, Rounds (away depth) id c d ∧
        eval (round (away depth) id) d = .ok (some (.ok m), c') ∧
        match m with
        | some m => ∃ rest, d.tasks.value.mailbox? id = some (m :: rest) ∧
          c'.tasks.value.mailbox? id = some rest
        | none => d.tasks.value.mailbox? id = some [] ∧
          (d.tasks.value.executing ≠ id ∨ id = d.tasks.value.idle) := by
  constructor
  · intro c d reach later id t known runs
    have inv := Scheduler.reachable_invariant reach.tasks
    obtain ⟨u, here, attended⟩ := attended_later (inv.attended known runs) later
    exact ⟨u, here, attended.mail⟩
  · intro c reach depth deep id m c' done
    obtain ⟨d, rounds, last⟩ := exists_last_attempt deep done
    obtain ⟨answer, left⟩ := round_eq_some last
    have inv := Scheduler.reachable_invariant (reachable_rounds reach.tasks rounds)
    refine ⟨d, rounds, last, ?_⟩
    cases m with
    | some m =>
      rw [left]
      exact mailbox?_of_received (answer?_eq_message.mp answer)
    | none => exact mailbox?_of_stuck inv (answer?_eq_nothing.mp answer)

/-- The main task goes to sleep without a message, and gets one from whoever runs meanwhile. -/
theorem wakeups_kept_main :
    let c := (new 0 .zero (.full 1) 0 [[.call (.send 1 .interruptXhci)]]).value
    let d : Core := { c with tasks := .new (attempt 1 c.tasks.value).value.2 }
    Reachable c ∧ Later c d ∧
      (∃ u, d.tasks.value.task? 1 = some u ∧ u.running = false ∧ u.mailbox = []) ∧
      ∃ e c', Rounds (away 1) 1 c e ∧
        eval (round (away 1) 1) e = .ok (some (.ok (some .interruptXhci)), c') ∧
        ∃ rest, e.tasks.value.mailbox? 1 = some (.interruptXhci :: rest) ∧
          c'.tasks.value.mailbox? 1 = some rest := by
  have reached : Reachable (new 0 .zero (.full 1) 0 [[.call (.send 1 .interruptXhci)]]).value :=
    .start 0 .zero (.full 1) 0 _ _
  obtain ⟨e, rounds, last, got⟩ :=
    wakeups_kept.2 _ reached 1 (Nat.le_refl 1) 1 (some .interruptXhci) _ rfl
  intro c d
  have later : Later c d := .attempt (d := c) 1 .now
  obtain ⟨u, here, mail⟩ := wakeups_kept.1 c d reached later 1 Scheduler.mainTask rfl rfl
  have asleep : d.tasks.value.task? 1 = some { Scheduler.mainTask with running := false } := rfl
  have sleeps : u.running = false := by
    rw [asleep] at here
    cases here
    rfl
  exact ⟨reached, later, ⟨u, here, sleeps, mail sleeps⟩, e, _, rounds, last, got⟩

end Core

end Nucleus
