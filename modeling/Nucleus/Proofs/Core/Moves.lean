import Mathlib.Logic.Relation
import Nucleus.Proofs.Core.Alarms

/-!
# Moves

What an act does to the scheduler and to the timers, and what it has the timer's handler ask of the
processor, taken apart: operations of the scheduler, timers that are added, and whole interrupts of
the timer. It makes no difference how deep in scripts they happen. What each move keeps is kept by
every act.

* `Signal`: what the timer's handler asks of the processor.
* `Move`: one thing that can happen.
* `Goes`: a computation that goes by moves.
* `goes_perform`, `goes_away`: every act does, and all that goes on while its caller is away.
* `moves_step`: so an act done from outside is a run of moves.
-/

namespace Nucleus

/-- What the handler of the timer asks of the processor. -/
inductive Signal where
  /-- The interrupt is over. -/
  | ended
  /-- Go on with the task `id`. -/
  | restored (id : TaskId)
deriving DecidableEq, Repr

def Event.signal? : Event → Option Signal
  | .endOfInterrupt _ => some .ended
  | .restoreContext id _ => some (.restored id)
  | _ => none

namespace Core
variable {α β : Type} {c d : Core}

def signals (c : Core) : List Signal := c.events.filterMap Event.signal?

/-- Neither tasks nor timers have a part in what happened from `c` to `d`. -/
structure Beside (c d : Core) : Prop where
  tasks : d.tasks.value = c.tasks.value
  timers : d.timers.value = c.timers.value
  signals : d.signals = c.signals

inductive Move (c : Core) : Core → Prop where
  | aside {d : Core} : Beside c d → Move c d
  | schedule (op : Scheduler.Operation) :
      Move c { c with tasks := .new (c.tasks.value.perform op).value.2 }
  | arm (timeout : Nat) (value : Int) (owner : TaskId) :
      Move c { c with timers := .new (c.timers.value.add (.user timeout value owner)) }
  | interrupt {d : Core} (saved : Context) : eval (timerInterrupt saved) c = .ok ((), d) → Move c d

/-- Move after move. -/
def Moves : Core → Core → Prop := Relation.ReflTransGen Move

theorem Moves.aside (beside : Beside c d) : Moves c d := .single (.aside beside)

theorem moves_run (c : Core) (ops : List Scheduler.Operation) :
    Moves c { c with tasks := .new (c.tasks.value.run ops) } := by
  induction ops generalizing c with
  | nil => exact .aside ⟨rfl, rfl, rfl⟩
  | cons op ops ih => exact (ih _).head (.schedule op)

/-! ## Computations that go by moves -/

def Goes (x : CoreM α) : Prop := ∀ c a d, eval x c = .ok (a, d) → Moves c d

theorem Goes.pure (a : α) : Goes (Pure.pure a : CoreM α) := by
  intro c b d done
  cases done
  exact .refl

theorem Goes.bind {x : CoreM α} {f : α → CoreM β} (hx : Goes x) (hf : ∀ a, Goes (f a)) :
    Goes (x >>= f) := by
  intro c b d done
  obtain ⟨a, e, first, second⟩ := eval_bind_eq_ok.mp done
  exact (hx c a e first).trans (hf a e b d second)

theorem Goes.map {x : CoreM α} (hx : Goes x) (f : α → β) : Goes (f <$> x) := by
  rw [map_eq_pure_bind]
  exact hx.bind fun a => .pure (f a)

theorem Goes.get : Goes (MonadState.get : CoreM Core) := by
  intro c a d done
  cases done
  exact .refl

theorem Goes.update {g : Core → Core} (beside : ∀ c, Beside c (g c)) : Goes (modify g) := by
  intro c a d done
  cases done
  exact .aside (beside c)

theorem Goes.emit {e : Moment → Event} (silent : ∀ m, (e m).signal? = none) :
    Goes (Core.emit e) := by
  apply Goes.update
  exact fun c => ⟨rfl, rfl, by simp [signals, silent]⟩

theorem Goes.lift (x : Logged α) : Goes (Core.lift x) := by
  intro c a d done
  cases done
  exact .refl

theorem Goes.masked {x : CoreM α} (h : Goes x) : Goes (Core.masked x) := by
  refine .bind .get fun c => .bind (.update fun _ => ⟨rfl, rfl, rfl⟩) fun _ => .bind h fun a => ?_
  exact .bind (.update fun _ => ⟨rfl, rfl, rfl⟩) fun _ => .pure a

@[simp] theorem signals_contention (held : Bool) (l : LockName) :
    (contention held l).filterMap Event.signal? = [] := by
  cases held <;> rfl

theorem Goes.withTasks {f : Scheduler → Logged (α × Scheduler)}
    (works : ∀ s, ∃ ops, (f s).value.2 = s.run ops) : Goes (Core.withTasks f) := by
  intro c a d done
  obtain ⟨ops, left⟩ := works c.tasks.value
  rw [eval_withTasks] at done
  cases done
  refine (moves_run c ops).tail (.aside ⟨left, rfl, ?_⟩)
  simp [signals]

theorem Goes.operation (op : Scheduler.Operation) {f : Scheduler → Logged (α × Scheduler)}
    (same : ∀ s, (f s).value.2 = (s.perform op).value.2) : Goes (Core.withTasks f) :=
  .withTasks fun s => ⟨[op], same s⟩

theorem Goes.locked {f : Scheduler → Logged (α × Scheduler)} (op : Scheduler.Operation)
    (same : ∀ s, (f s).value.2 = (s.perform op).value.2) {g : α → β} :
    Goes (g <$> Core.masked (Core.withTasks f)) :=
  .map (.masked (.operation op same)) g

theorem Goes.withFrames (f : Store → Logged (α × Store)) : Goes (Core.withFrames f) := by
  intro c a d done
  rw [eval_withFrames] at done
  cases done
  refine .aside ⟨rfl, rfl, ?_⟩
  simp [signals]

theorem Goes.addTimer (ticks : Nat) (value : Int) (owner : TaskId) :
    Goes (Core.addTimer ticks value owner) := by
  apply Goes.masked
  intro c a d done
  rw [eval_withTimers] at done
  simp only [eval_bind, check, eval_checked, Checked.value_run_check] at done
  cases counted : Word.add? c.timers.value.now ticks with
  | error p =>
    rw [counted] at done
    cases done
  | ok timeout =>
    rw [counted] at done
    cases done
    refine Relation.ReflTransGen.tail (.single (.arm timeout value owner)) (.aside ⟨rfl, rfl, ?_⟩)
    simp [signals]

/-! ## Operations -/

theorem Goes.spawn (entry : UInt64) (arg : Int64) (level : Option Nat) (areas : Stacks) :
    Goes (Core.spawn entry arg level areas) := by
  apply Goes.bind .get
  intro c
  apply Goes.masked
  apply Goes.withTasks
  intro s
  let id := s.create.value.1
  let prime : Scheduler.Operation := .prime id entry arg (UInt64.ofNat c.cr3) areas
  simp only [Logged.value_bind]
  rcases answer : s.create.value.2.prime id entry arg (UInt64.ofNat c.cr3) areas with
    ⟨_ | _, s'⟩
  · exact ⟨[.create, prime], (congrArg Prod.snd answer).symm⟩
  · have primed : s.run [.create, prime] = s' := congrArg Prod.snd answer
    refine ⟨[.create, prime, .wakeup id level], ?_⟩
    have woken : s.run [.create, prime, .wakeup id level] = (s'.wakeup id level).value.2 := by
      rw [← primed]
      rfl
    rw [woken, Logged.value_bind]
    rcases (s'.wakeup id level).value with ⟨_ | _, _⟩ <;> rfl

theorem Goes.pageFault (code address : Nat) : Goes (Core.pageFault code address) :=
  .bind (.withTasks fun _ => ⟨[], rfl⟩) fun _ => .bind .get fun _ => .withFrames _

theorem Goes.faultTrap (code address : Nat) : Goes (Core.faultTrap code address) := by
  apply Goes.bind .get
  intro c
  cases c.installed with
  | false => exact .bind (.lift _) fun _ => .pure _
  | true =>
    apply Goes.bind (.pageFault code address)
    intro r
    cases r with
    | ok _ => exact .pure _
    | error e => exact .bind (.lift _) fun _ => .pure _

theorem Goes.attempt (id : TaskId) : Goes (Core.withTasks (Core.attempt id)) := by
  apply Goes.withTasks
  intro s
  apply attempt_cases (P := fun r => ∃ ops, r.2 = s.run ops)
  case unknown => exact fun _ => ⟨[], rfl⟩
  case mail => exact fun _ _ _ _ _ => ⟨[.receive id], (s.left_receive id).symm⟩
  case empty => exact fun _ _ _ => ⟨[.sleep id], rfl⟩

theorem Goes.timerInterrupt (saved : Context) : Goes (Core.timerInterrupt saved) :=
  fun _ _ _ done => .single (.interrupt saved done)

theorem Goes.timerTrap (saved : Context) : Goes (Core.timerTrap saved) := by
  apply Goes.bind .get
  intro c
  cases c.installed with
  | false => exact .emit fun _ => rfl
  | true => exact .timerInterrupt saved

section
variable {elsewhere : CoreM Unit} (goes : Goes elsewhere)
include goes

theorem Goes.switchTo (w : Switch) : Goes (Core.switchTo elsewhere w) :=
  .bind (.emit fun _ => rfl) fun _ => goes

theorem Goes.sleep (id : TaskId) : Goes (Core.sleep elsewhere id) := by
  apply Goes.masked
  apply Goes.bind (.operation (f := fun s => s.sleep id) (.sleep id) fun _ => rfl)
  rintro (e | _ | w)
  · exact .pure _
  · exact .pure _
  · exact .bind (goes.switchTo w) fun _ => .pure _

theorem Goes.round (id : TaskId) : Goes (Core.round elsewhere id) := by
  apply Goes.masked
  apply Goes.bind (.attempt id)
  intro r
  cases r with
  | refused | received | stuck => exact .pure _
  | suspended w => exact .bind (goes.switchTo w) fun _ => .pure _

theorem Goes.receiveOrSleep (id : TaskId) (rounds : Nat) :
    Goes (Core.receiveOrSleep elsewhere id rounds) := by
  induction rounds with
  | zero => exact .pure _
  | succ rounds ih =>
    rw [receiveOrSleep_succ]
    apply Goes.bind (goes.round id)
    intro answer
    cases answer with
    | some a => exact .pure a
    | none => exact ih

theorem goes_call (k : Call) : Goes (call elsewhere k) := by
  cases k with
  | create => exact Goes.locked (f := Scheduler.create) .create fun _ => rfl
  | prime id entry arg areas =>
    apply Goes.map
    apply Goes.bind .get
    intro c
    exact .masked (.operation (.prime id entry arg (UInt64.ofNat c.cr3) areas) fun _ => rfl)
  | spawn entry arg level areas => exact .map (.spawn entry arg level areas) _
  | wakeup id level =>
    exact Goes.locked (f := fun s => s.wakeup id level) (.wakeup id level) fun _ => rfl
  | sleep id => exact .map (goes.sleep id) _
  | send id m => exact Goes.locked (f := fun s => s.send id m) (.send id m) fun _ => rfl
  | receive id => exact Goes.locked (f := fun s => pure (s.receive id)) (.receive id) fun _ => rfl
  | receiveOrSleep id => exact .bind .get fun _ => .map (goes.receiveOrSleep id _) _
  | addTimer ticks value owner => exact .map (.addTimer ticks value owner) _
  | setWindow id w =>
    exact Goes.locked (f := fun s => pure (s.setWindow id w)) (.setWindow id w) fun _ => rfl
  | timerInterrupt saved => exact .map (.masked (.timerInterrupt saved)) _
  | pageFault code address => exact .map (.masked (.pageFault code address)) _
  | idle => exact .map (.emit fun _ => rfl) _
  | install =>
    exact .map (.update (g := fun c => { c with installed := true }) fun _ => ⟨rfl, rfl, rfl⟩) _
  | timerTrap saved => exact .map (.masked (.timerTrap saved)) _
  | faultTrap code address =>
    apply Goes.bind (.masked (.faultTrap code address))
    intro goesOn
    cases goesOn <;> exact .pure _

theorem goes_perform (a : Act) : Goes (perform elsewhere a) := by
  cases a with
  | call k => exact goes_call goes k
  | task id =>
    apply Goes.masked
    apply Goes.withTasks
    intro s
    exists []
    cases s.task? id <;> rfl
  | translate => exact .bind .get fun _ => .pure _
  | loadCr3 value =>
    apply Goes.bind (.update (g := fun c => { c with cr3 := value }) fun _ => ⟨rfl, rfl, rfl⟩)
    exact fun _ => .pure _
  | newUserTree => exact .bind .get fun _ => .bind (.masked (.withFrames _)) fun _ => .pure _
  | poke => exact .bind (.update fun _ => ⟨rfl, rfl, rfl⟩) fun _ => .pure _
  | allocate | release => exact .masked (.withFrames _)

theorem goes_play (script : List Act) : Goes (play elsewhere script) := by
  induction script with
  | nil => exact .pure ()
  | cons a rest ih =>
    apply Goes.bind (goes_perform goes a)
    intro r
    apply Goes.bind (.emit fun _ => rfl)
    intro _
    cases r.isHalted with
    | false => exact ih
    | true => exact .pure ()

end

theorem goes_away (depth : Nat) : Goes (away depth) := by
  induction depth with
  | zero => exact .pure ()
  | succ depth ih =>
    apply Goes.bind .get
    intro c
    cases c.scripts with
    | nil => exact .pure ()
    | cons script rest =>
      exact .bind (.update fun _ => ⟨rfl, rfl, rfl⟩) fun _ => goes_play ih script

theorem moves_step {c' : Core} {a : Act} {r : Answer} {events : List Event}
    (done : (c.step a).run.value = .ok (r, events, c')) :
    Moves { c with events := [] } c' ∧ events.filterMap Event.signal? = c'.signals := by
  obtain ⟨ran, rfl⟩ := step_eq_ok.mp done
  exact ⟨goes_perform (goes_away _) a _ _ _ ran, rfl⟩

end Core

end Nucleus
