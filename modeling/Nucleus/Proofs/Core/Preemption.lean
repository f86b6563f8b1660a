import Nucleus.Proofs.Core.Moves
import Nucleus.Proofs.Task.Periods
import Nucleus.Proofs.Task.Priority

/-!
# Preemption

The core takes the turn from the executing task at every multiple of the period and at no other
tick. Whatever user timers are pending, each interrupt of the timer tells the processor once that it
is over, and only then, if the turn has moved on, what to go on with.

* `Regular`: what holds of a core at every moment. `regular_moves`: no move breaks it.
* `timerInterrupt_eq_ok`: what the handler of the timer does.
* `Handled`: what an interrupt comes to. `exists_handled`: each comes to that.
* `Rhythm`: what the processor is asked for from tick to tick. `rhythm_moves`: no move breaks it.
* `preemption_periodic`: of the timers alone, of every interrupt, and of all that an act sets off.
-/

namespace Nucleus.Core
open Platform
variable {c d e : Core}

/-! ## At every moment -/

theorem reachable_tick {ts ts' : Timers} {s s' : Scheduler} {due : Bool} (reach : s.Reachable)
    (ticked : (ts.tick s).run.value = .ok (due, ts', s')) : s'.Reachable :=
  Timers.tick_keeps (Q := Scheduler.Reachable) (fun _ id m reach => .next (.send id m) reach) reach
    ticked

/-- The tasks and the timers are as they can come to be. -/
structure Regular (c : Core) : Prop where
  tasks : c.tasks.value.Reachable
  timers : ∃ main, Timers.Periodic main c.timers.value

/-- What the handler of the timer does: a tick, the end of the interrupt, and if a switch is due,
the switch. -/
theorem timerInterrupt_eq_ok {saved : Context}
    (ran : eval (timerInterrupt saved) c = .ok ((), d)) :
    ∃ due ts s, (c.timers.value.tick c.tasks.value).run.value = .ok (due, ts, s) ∧
      d.timers.value = ts ∧
      d.tasks.value = (if due then (s.preempt saved).value.2 else s) ∧
      d.signals = c.signals ++ .ended :: if due then
        ((s.preempt saved).value.1.map fun w => .restored w.load).toList else [] := by
  obtain ⟨due, e, ticked, rest⟩ := eval_bind_eq_ok.mp ran
  obtain ⟨_, f, ended, rest⟩ := eval_bind_eq_ok.mp rest
  cases ended
  rw [eval_tick] at ticked
  cases came : (c.timers.value.tick c.tasks.value).run.value with
  | error p =>
    rw [came] at ticked
    cases ticked
  | ok r =>
    rw [came] at ticked
    obtain ⟨due, ts, s⟩ := r
    cases ticked
    refine ⟨due, ts, s, rfl, ?_⟩
    cases due with
    | false =>
      cases rest
      refine ⟨rfl, rfl, ?_⟩
      simp [signals, Event.signal?]
    | true =>
      obtain ⟨w, g, preempted, rest⟩ := eval_bind_eq_ok.mp rest
      rw [eval_withTasks] at preempted
      cases preempted
      cases planned : (s.preempt saved).value.1 with
      | none =>
        rw [planned] at rest
        cases rest
        refine ⟨rfl, rfl, ?_⟩
        simp [signals, Event.signal?]
      | some w =>
        rw [planned] at rest
        cases rest
        refine ⟨rfl, rfl, ?_⟩
        simp [signals, Event.signal?]

theorem regular_timerInterrupt (regular : Regular c) {saved : Context}
    (ran : eval (timerInterrupt saved) c = .ok ((), d)) : Regular d := by
  obtain ⟨reach, main, periodic⟩ := regular
  obtain ⟨due, ts, s, ticked, timers, tasks, signals⟩ := timerInterrupt_eq_ok ran
  have sent := reachable_tick reach ticked
  have periodic' : Timers.Periodic main d.timers.value :=
    timers ▸ (Timers.periodic_tick periodic ticked).2
  refine ⟨?_, main, periodic'⟩
  rw [tasks]
  split
  · exact sent.next (.preempt saved)
  · exact sent

theorem regular_move (regular : Regular c) (move : Move c d) : Regular d := by
  cases move with
  | aside beside =>
    obtain ⟨reach, main, periodic⟩ := regular
    exact ⟨beside.tasks ▸ reach, main, beside.timers ▸ periodic⟩
  | schedule op => exact ⟨regular.tasks.next op, regular.timers⟩
  | arm timeout value owner =>
    obtain ⟨reach, main, periodic⟩ := regular
    exact ⟨reach, main, Timers.periodic_add periodic timeout value owner⟩
  | interrupt saved ran => exact regular_timerInterrupt regular ran

theorem regular_moves (regular : Regular c) (moves : Moves c d) : Regular d := by
  induction moves with
  | refl => exact regular
  | tail _ move ih => exact regular_move ih move

theorem Reachable.regular (reach : Reachable c) : Regular c := by
  induction reach with
  | start cr3 _ _ idleEntry _ areas =>
    exact ⟨.start idleEntry (UInt64.ofNat cr3) areas, _, Timers.periodic_new _⟩
  | @next c c' r events a _ done ih =>
    have before : Regular { c with events := [] } := ⟨ih.tasks, ih.timers⟩
    exact regular_moves before (moves_step done).1
  | schedule op _ ih => exact regular_move ih (.schedule op)
  | around _ _ _ _ ih => exact ⟨ih.tasks, ih.timers⟩

/-! ## Interrupts -/

/-- An interrupt of the timer was handled from `c` to `d`. -/
structure Handled (c d : Core) : Prop where
  ticked : d.timers.value.now = c.timers.value.now + 1
  /-- The end was signalled once, and behind it at most a switch to the executing task. -/
  signalled : ∃ switch, d.signals = c.signals ++ .ended :: switch ∧
    (switch = [] ∨
      preemptionPeriod ∣ d.timers.value.now ∧ switch = [.restored d.tasks.value.executing])
  onTop : preemptionPeriod ∣ d.timers.value.now → d.tasks.value.OnTop

theorem handled_timerInterrupt (regular : Regular c) {saved : Context}
    (ran : eval (timerInterrupt saved) c = .ok ((), d)) : Handled c d := by
  obtain ⟨reach, main, periodic⟩ := regular
  obtain ⟨due, ts, s, ticked, timers, tasks, signals⟩ := timerInterrupt_eq_ok ran
  obtain ⟨now, -⟩ := Timers.tick_eq_ok periodic.ordered ticked
  have sent := reachable_tick reach ticked
  have inv := Scheduler.reachable_invariant sent
  have turn : due = decide (preemptionPeriod ∣ d.timers.value.now) := by
    rw [timers, now]
    exact (Timers.periodic_tick periodic ticked).1
  refine ⟨by rw [timers, now], ?signalled, ?onTop⟩
  case signalled =>
    refine ⟨_, signals, ?_⟩
    cases due with
    | false => exact .inl rfl
    | true =>
      have told := Scheduler.announced_preempt inv saved
      rw [if_pos rfl, told.switch, tasks]
      split
      · exact .inl rfl
      · exact .inr ⟨of_decide_eq_true turn.symm, rfl⟩
  case onTop =>
    intro divides
    rw [tasks, if_pos (turn.trans (decide_eq_true divides))]
    exact Scheduler.onTop_preempt inv (Scheduler.reachable_ranked sent) saved

/-- Short of the end of time every interrupt is handled. -/
theorem exists_handled (regular : Regular c)
    (soon : c.timers.value.now + 1 + preemptionPeriod < Word.bound) (saved : Context) :
    ∃ d, eval (timerInterrupt saved) c = .ok ((), d) ∧ Handled c d := by
  have passes := passes_timerInterrupt (Scheduler.reachable_invariant regular.tasks) saved
  cases ran : eval (timerInterrupt saved) c with
  | error p =>
    rw [Passes, ran] at passes
    exact absurd soon (Nat.not_lt.mpr passes.2)
  | ok r => exact ⟨r.2, rfl, handled_timerInterrupt regular ran⟩

theorem eval_timerTrap (saved : Context) (c : Core) :
    eval (timerTrap saved) c =
      if c.installed then eval (timerInterrupt saved) c
      else .ok ((), { c with events := c.events ++ [.bareEndOfInterrupt c.moment] }) := by
  rw [timerTrap, eval_bind, eval_get]
  simp only [Except.bind]
  split <;> rfl

/-- How the timer's interrupts come to their handler. -/
inductive Arrival (c : Core) : Call → Prop where
  | direct (saved : Context) : Arrival c (.timerInterrupt saved)
  | trap (saved : Context) : c.installed = true → Arrival c (.timerTrap saved)

theorem exists_handled_call (regular : Regular c)
    (soon : c.timers.value.now + 1 + preemptionPeriod < Word.bound) (elsewhere : CoreM Unit)
    {k : Call} (arrival : Arrival c k) :
    ∃ d, eval (perform elsewhere (.call k)) c = .ok (.done, d) ∧ Handled c d := by
  let c' : Core := { c with interrupts := c.interrupts.mask.2 }
  have regular' : Regular c' := ⟨regular.tasks, regular.timers⟩
  have masked {x : CoreM Unit} (saved : Context)
      (same : eval x c' = eval (timerInterrupt saved) c') :
      ∃ d, eval ((fun _ => Answer.done) <$> masked x) c = .ok (.done, d) ∧ Handled c d := by
    obtain ⟨d, ran, ticked, signalled, onTop⟩ := exists_handled regular' soon saved
    rw [eval_map, eval_masked, same, ran]
    exact ⟨_, rfl, ticked, signalled, onTop⟩
  cases arrival with
  | direct saved => exact masked saved rfl
  | trap saved here => exact masked saved ((eval_timerTrap saved c').trans (if_pos here))

/-! ## From tick to tick -/

/-- What the timer's handler asks of the processor from tick `n` to tick `m`: with each interrupt
that it is over, and at most at a multiple of the period, behind that, what to go on with. -/
inductive Rhythm (n : Nat) : List Signal → Nat → Prop where
  | rest : Rhythm n [] n
  | interrupt {asked : List Signal} {m : Nat} (switch : List Signal) : Rhythm n asked m →
      (switch = [] ∨ preemptionPeriod ∣ m + 1 ∧ ∃ id, switch = [.restored id]) →
      Rhythm n (asked ++ .ended :: switch) (m + 1)

theorem rhythm_moves (regular : Regular c) (moves : Moves c d) :
    ∃ asked, d.signals = c.signals ++ asked ∧
      Rhythm c.timers.value.now asked d.timers.value.now := by
  induction moves with
  | refl => exact ⟨[], (List.append_nil _).symm, .rest⟩
  | @tail d e before move ih =>
    obtain ⟨asked, told, rhythm⟩ := ih
    cases move with
    | aside beside => exact ⟨asked, beside.signals.trans told, beside.timers ▸ rhythm⟩
    | schedule op => exact ⟨asked, told, rhythm⟩
    | arm timeout value owner => exact ⟨asked, told, rhythm⟩
    | interrupt saved ran =>
      have handled := handled_timerInterrupt (regular_moves regular before) ran
      obtain ⟨switch, signalled, silent⟩ := handled.signalled
      refine ⟨asked ++ .ended :: switch, by rw [signalled, told, List.append_assoc], ?_⟩
      rw [handled.ticked] at silent ⊢
      exact .interrupt switch rhythm (silent.imp_right fun ⟨divides, one⟩ => ⟨divides, _, one⟩)

/-- **Preemption is strictly periodic.** Whatever user timers are added, just one preemption timer
is pending beside those that no tick has fired, and a tick answers whether its own number is a
multiple of the period. At whatever moment an interrupt of the timer comes to the core, it signals
its end once and before any switch; it switches only at a multiple, and then the executing task is
the first at the highest level afterwards. All the interrupts that an act sets off come one after
the other in this way, however deep in scripts. With no core installed the trap signals its end and
nothing else. -/
theorem preemption_periodic :
    (∀ (main : TaskId) (set : List Alarm) (fired : List (List Timer)) (ts : Timers)
      (s : Scheduler), Timers.Timed main set fired ts s →
      Timer.preemptions ts.pending = [.preempting (Timers.nextTurn ts.now) main] ∧
      ts.pending.length = 1 + (Timers.undelivered set fired).length ∧
      (ts.now + 1 + preemptionPeriod < Word.bound → ∃ due ts',
        (ts.tick s).run.value = .ok (due, ts', Timers.sendAll ts.firing s) ∧
          ts'.now = ts.now + 1 ∧ (due = true ↔ preemptionPeriod ∣ ts'.now))) ∧
    (∀ c d : Core, Reachable c → Moves c d →
      d.timers.value.now + 1 + preemptionPeriod < Word.bound → ∀ elsewhere k, Arrival d k →
      ∃ e, eval (perform elsewhere (.call k)) d = .ok (.done, e) ∧ Handled d e) ∧
    (∀ (c c' : Core) (a : Act) (r : Answer) (events : List Event), Reachable c →
      (c.step a).run.value = .ok (r, events, c') →
      Moves { c with events := [] } c' ∧
        Rhythm c.timers.value.now (events.filterMap Event.signal?) c'.timers.value.now) ∧
    ∀ (c : Core) (saved : Context), c.installed = false →
      eval (timerTrap saved) c =
        .ok ((), { c with events := c.events ++ [.bareEndOfInterrupt c.moment] }) := by
  refine ⟨?timers, ?interrupts, ?acts, ?bare⟩
  case timers =>
    intro main set fired ts s timed
    have periodic := Timers.timed_periodic timed
    refine ⟨periodic.armed, Timers.length_pending timed, fun soon => ?_⟩
    obtain ⟨due, ts', s', ticked⟩ := Timers.exists_tick s soon
    obtain ⟨now, sent, -⟩ := Timers.tick_eq_ok periodic.ordered ticked
    have turn := (Timers.periodic_tick periodic ticked).1
    exact ⟨due, ts', by rw [ticked, sent], now, by rw [turn, decide_eq_true_iff, now]⟩
  case interrupts =>
    intro c d reach moves soon elsewhere k arrival
    exact exists_handled_call (regular_moves reach.regular moves) soon elsewhere arrival
  case acts =>
    intro c c' a r events reach done
    obtain ⟨moves, same⟩ := moves_step done
    have before : Regular { c with events := [] } := ⟨reach.regular.tasks, reach.regular.timers⟩
    obtain ⟨asked, told, rhythm⟩ := rhythm_moves before moves
    rw [same, told]
    exact ⟨moves, rhythm⟩
  case bare =>
    intro c saved none
    rw [eval_timerTrap, none]
    rfl

/-- User timers carry the value of the preemption timer; one is overdue, one comes with the turn,
and one has no owner. In the script a timer of the main task, which waits, is delivered with the
first tick, and the second gives the turn back to it. The core is not installed, so the trap does
not find it. -/
theorem preemption_periodic_reserved :
    let set : List Alarm := [⟨.user 0 preemptionValue 1, 0⟩, ⟨.user 2 preemptionValue 1, 0⟩,
      ⟨.user 2 7 9, 0⟩]
    let script : List Act := [.call (.addTimer 1 preemptionValue 1), .call (.addTimer 0 7 9),
      .call (.timerInterrupt .zero), .call (.timerInterrupt .zero)]
    let c := (new 0 .zero (.full 1) 0 [script]).value
    (∃ ts s ts' s', Timers.Timed 1 set [[.user 0 preemptionValue 1]] ts s ∧
      ts.pending.length = 1 + 2 ∧ (ts.tick s).run.value = .ok (true, ts', s')) ∧
    ∃ r events c', (c.step (.call (.receiveOrSleep 1))).run.value = .ok (r, events, c') ∧
      events.filterMap Event.signal? = [.ended, .ended, .restored 1] ∧
      Rhythm 0 [.ended, .ended, .restored 1] c'.timers.value.now ∧
      (∃ e, eval (perform (pure ()) (.call (.timerInterrupt .zero))) c' = .ok (.done, e) ∧
        Handled c' e) ∧
      eval (timerTrap .zero) c =
        .ok ((), { c with events := [.bareEndOfInterrupt ⟨true, []⟩] }) := by
  intro set script c
  constructor
  · let s := (Scheduler.new 0 0).value
    let ts := ((((Timers.new 1).add (.user 0 preemptionValue 1)).add
      (.user 2 preemptionValue 1)).add (.user 2 7 9))
    have added : Timers.Timed 1 set [] ts s := .add 2 7 9 (.add 2 preemptionValue 1
      (.add 0 preemptionValue 1 (.start s)))
    have first : (ts.tick s).run.value = .ok (_, _, _) := rfl
    have timed := added.tick first
    obtain ⟨-, count, ticks⟩ := preemption_periodic.1 1 set _ _ _ timed
    obtain ⟨due, ts', ticked, now, turn⟩ := ticks (by decide)
    have second : preemptionPeriod ∣ 1 + 1 := by decide
    obtain rfl : due = true := turn.mpr (by rw [now]; exact second)
    exact ⟨_, _, ts', _, timed, count, ticked⟩
  · have reached : Reachable c := .start 0 .zero (.full 1) 0 _ _
    have told : ((c.step (.call (.receiveOrSleep 1))).run.value.toOption.map fun r =>
        (r.2.1.filterMap Event.signal?, r.2.2.timers.value.now)) =
          some ([.ended, .ended, .restored 1], 2) := by
      simp only [c, script]
      decide +kernel
    cases done : (c.step (.call (.receiveOrSleep 1))).run.value with
    | error p =>
      rw [done] at told
      cases told
    | ok r =>
      rw [done] at told
      obtain ⟨r, events, c'⟩ := r
      obtain ⟨signals, now⟩ := Prod.mk.inj (Option.some.inj told)
      obtain ⟨-, rhythm⟩ := preemption_periodic.2.2.1 c c' _ r events reached done
      rw [signals] at rhythm
      obtain ⟨e, handled⟩ := preemption_periodic.2.1 c' c' (reached.next _ done) .refl
        (by rw [now]; decide) (pure ()) _ (.direct .zero)
      have bare := preemption_periodic.2.2.2 c .zero rfl
      exact ⟨r, events, c', rfl, signals, rhythm, ⟨e, handled⟩, bare⟩

end Nucleus.Core
