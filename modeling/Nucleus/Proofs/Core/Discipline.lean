import Nucleus.Proofs.Core.Alarms

/-!
# Locks and masks around an operation

Whatever the core is asked for, and however the request ends, it hands the machine back as it was:
interrupts as they were let in or kept out, every lock free. On the way control is only given away
with interrupts masked and no lock held, and no lock is asked for by who already holds it.

* `Event.orderly`: what may happen on the way.
* `Restored`: how the machine is handed back.
* `Restores`: a computation that hands it back so. The handlers do if interrupts are masked when
  they are called, and a mask around such a computation makes the condition needless.
* `restores_perform`, `restores_away`: every act does, and all that goes on while its caller is
  away.
* `locks_and_mask_handed_back`: the same of every entry to the core.
-/

namespace Nucleus

/-- Control is given away with interrupts masked and no lock held, and no lock is asked for that is
held. -/
def Event.orderly : Event → Bool
  | .switchContext _ m | .restoreContext _ m => m = ⟨false, []⟩
  | .contended _ => false
  | _ => true

namespace Core
variable {α β : Type} {c d e : Core}

/-- No lock is held. -/
structure Free (c : Core) : Prop where
  timers : c.timers.held = false
  tasks : c.tasks.held = false
  frames : c.frames.held = false

theorem Free.held (free : Free c) : c.held = [] := by
  simp [Core.held, free.timers, free.tasks, free.frames]

/-- `d` is what `c` has come to, with interrupts as they were and every lock free, and all that
happened in between is orderly. -/
structure Restored (c d : Core) : Prop where
  interrupts : d.interrupts = c.interrupts
  free : Free d
  orderly : ∃ es, d.events = c.events ++ es ∧ ∀ e ∈ es, e.orderly = true

theorem Restored.refl (free : Free c) : Restored c c :=
  ⟨rfl, free, [], (List.append_nil _).symm, fun _ absent => absurd absent List.not_mem_nil⟩

theorem Restored.trans (first : Restored c d) (second : Restored d e) : Restored c e := by
  obtain ⟨before, told, early⟩ := first.orderly
  obtain ⟨after, retold, late⟩ := second.orderly
  refine ⟨second.interrupts.trans first.interrupts, second.free, before ++ after, ?_, ?_⟩
  · rw [retold, told, List.append_assoc]
  · exact List.forall_mem_append.mpr ⟨early, late⟩

/-- Called with every lock free, and if it is `shut` with interrupts masked, `x` hands the machine
back as it was. -/
def Restores (shut : Bool) (x : CoreM α) : Prop :=
  ∀ c a d, Free c → (shut = true → c.interrupts.enabled = false) → eval x c = .ok (a, d) →
    Restored c d

variable {shut : Bool}

theorem Restores.mono {x : CoreM α} (h : Restores false x) : Restores shut x :=
  fun c a d free _ done => h c a d free nofun done

theorem Restores.pure (a : α) : Restores shut (Pure.pure a : CoreM α) := by
  intro c b d free _ done
  cases done
  exact .refl free

theorem Restores.get : Restores shut (MonadState.get : CoreM Core) := by
  intro c b d free _ done
  cases done
  exact .refl free

theorem Restores.lift (x : Logged α) : Restores shut (Core.lift x) := by
  intro c b d free _ done
  cases done
  exact .refl free

theorem Restores.bind {x : CoreM α} {f : α → CoreM β} (hx : Restores shut x)
    (hf : ∀ a, Restores shut (f a)) : Restores shut (x >>= f) := by
  intro c b e free masked done
  obtain ⟨a, d, first, second⟩ := eval_bind_eq_ok.mp done
  have before := hx c a d free masked first
  have still : shut = true → d.interrupts.enabled = false := by
    rw [before.interrupts]
    exact masked
  exact before.trans (hf a d b e before.free still second)

theorem Restores.map {x : CoreM α} (hx : Restores shut x) (f : α → β) : Restores shut (f <$> x) := by
  rw [map_eq_pure_bind]
  exact hx.bind fun a => .pure (f a)

/-- What touches neither locks nor the flag. -/
theorem Restores.update {g : Core → Core}
    (beside : ∀ c, (g c).interrupts = c.interrupts ∧ (g c).timers = c.timers ∧
      (g c).tasks = c.tasks ∧ (g c).frames = c.frames ∧ (g c).events = c.events) :
    Restores shut (modify g) := by
  intro c b d free _ done
  cases done
  obtain ⟨flag, timers, tasks, frames, told⟩ := beside c
  refine ⟨flag, ⟨?_, ?_, ?_⟩, [], told.trans (List.append_nil _).symm, nofun⟩
  · rw [timers, free.timers]
  · rw [tasks, free.tasks]
  · rw [frames, free.frames]

theorem Restores.emit {e : Moment → Event}
    (orderly : ∀ flag, (shut = true → flag = false) → (e ⟨flag, []⟩).orderly = true) :
    Restores shut (Core.emit e) := by
  intro c b d free masked done
  cases done
  refine ⟨rfl, ⟨free.timers, free.tasks, free.frames⟩, [e c.moment], rfl, ?_⟩
  rw [moment, free.held, List.forall_mem_singleton]
  exact orderly _ masked

/-! ## Masks and locks -/

/-- Under a mask interrupts are out, and afterwards they are as they were. -/
theorem Restores.masked {body : CoreM α} (h : Restores true body) :
    Restores shut (Core.masked body) := by
  intro c a d free _ done
  rw [eval_masked] at done
  cases ran : eval body { c with interrupts := c.interrupts.mask.2 } with
  | error p =>
    rw [ran] at done
    cases done
  | ok r =>
    rw [ran] at done
    cases done
    have inside := h { c with interrupts := c.interrupts.mask.2 } r.1 r.2
      ⟨free.timers, free.tasks, free.frames⟩ (fun _ => c.interrupts.enabled_mask) ran
    have flag : r.2.interrupts.unmask c.interrupts.mask.1 = c.interrupts := by
      rw [inside.interrupts]
      exact c.interrupts.unmask_mask
    exact ⟨flag, ⟨inside.free.timers, inside.free.tasks, inside.free.frames⟩, inside.orderly⟩

@[simp] theorem contention_false (l : LockName) : contention false l = [] := rfl

theorem Restores.withTasks (f : Scheduler → Logged (α × Scheduler)) :
    Restores shut (Core.withTasks f) := by
  intro c a d free _ done
  rw [eval_withTasks, free.tasks] at done
  cases done
  exact ⟨rfl, ⟨free.timers, rfl, free.frames⟩, [], rfl, nofun⟩

theorem Restores.withFrames (f : Store → Logged (α × Store)) :
    Restores shut (Core.withFrames f) := by
  intro c a d free _ done
  rw [eval_withFrames, free.frames] at done
  cases done
  exact ⟨rfl, ⟨free.timers, free.tasks, rfl⟩, [], rfl, nofun⟩

/-- Work on the timers that leaves the rest of the core alone. -/
theorem Restores.withTimers {f : Timers → CoreM (α × Timers)}
    (beside : ∀ ts c r d, eval (f ts) c = .ok (r, d) → d = c) :
    Restores shut (Core.withTimers f) := by
  intro c a d free _ done
  rw [eval_withTimers, free.timers] at done
  cases ran : eval (f c.timers.value)
    { c with timers := c.timers.lock, events := c.events ++ contention false .timers } with
  | error p =>
    rw [ran] at done
    cases done
  | ok r =>
    have same := beside _ _ r.1 r.2 ran
    rw [ran] at done
    cases done
    rw [same]
    exact ⟨rfl, ⟨rfl, free.tasks, free.frames⟩, [], rfl, nofun⟩

theorem Restores.tick : Restores shut Core.tick := by
  intro c due d free _ done
  rw [eval_tick, free.timers, free.tasks] at done
  cases ticked : (c.timers.value.tick c.tasks.value).run.value with
  | error p =>
    rw [ticked] at done
    cases done
  | ok r =>
    rw [ticked] at done
    cases done
    exact ⟨rfl, ⟨rfl, rfl, free.frames⟩, [], List.append_assoc _ _ _, nofun⟩

/-! ## Operations -/

theorem Restores.addTimer (ticks : Nat) (value : Int) (owner : TaskId) :
    Restores shut (Core.addTimer ticks value owner) := by
  apply Restores.masked
  apply Restores.withTimers
  intro ts c r d done
  simp only [eval_bind, check, eval_checked, Checked.value_run_check] at done
  cases counted : Word.add? ts.now ticks with
  | error p =>
    rw [counted] at done
    cases done
  | ok timeout =>
    rw [counted] at done
    cases done
    rfl

theorem Restores.pageFault (code address : Nat) : Restores shut (Core.pageFault code address) :=
  .bind (.withTasks _) fun _ => .bind .get fun _ => .withFrames _

theorem Restores.faultTrap (code address : Nat) : Restores shut (Core.faultTrap code address) := by
  apply Restores.bind .get
  intro c
  cases c.installed with
  | false => exact .bind (.lift _) fun _ => .pure _
  | true =>
    apply Restores.bind (.pageFault code address)
    intro r
    cases r with
    | ok _ => exact .pure _
    | error e => exact .bind (.lift _) fun _ => .pure _

/-- The handler lets go of both locks before it gives control away, and so does it of interrupts
that its gate has masked. -/
theorem restores_timerInterrupt (saved : Context) : Restores true (timerInterrupt saved) := by
  apply Restores.bind .tick
  intro due
  apply Restores.bind (.emit fun _ _ => rfl)
  intro _
  cases due with
  | false => exact .pure ()
  | true =>
    apply Restores.bind (.withTasks _)
    rintro (_ | w)
    · exact .pure ()
    · apply Restores.emit
      rintro flag masked
      rw [masked rfl]
      rfl

theorem restores_timerTrap (saved : Context) : Restores true (timerTrap saved) := by
  apply Restores.bind .get
  intro c
  cases c.installed with
  | false => exact .emit fun _ _ => rfl
  | true => exact restores_timerInterrupt saved

section
variable {elsewhere : CoreM Unit} (restores : Restores true elsewhere)
include restores

theorem restores_switchTo (w : Switch) : Restores true (switchTo elsewhere w) := by
  apply Restores.bind _ fun _ => restores
  apply Restores.emit
  intro flag masked
  rw [masked rfl]
  rfl

theorem restores_sleep (id : TaskId) : Restores shut (sleep elsewhere id) := by
  apply Restores.masked
  apply Restores.bind (.withTasks _)
  rintro (e | _ | w)
  · exact .pure _
  · exact .pure _
  · exact .bind (restores_switchTo restores w) fun _ => .pure _

theorem restores_round (id : TaskId) : Restores shut (round elsewhere id) := by
  apply Restores.masked
  apply Restores.bind (.withTasks _)
  intro r
  cases r with
  | refused | received | stuck => exact .pure _
  | suspended w => exact .bind (restores_switchTo restores w) fun _ => .pure _

theorem restores_receiveOrSleep (id : TaskId) (rounds : Nat) :
    Restores shut (receiveOrSleep elsewhere id rounds) := by
  induction rounds with
  | zero => exact .pure _
  | succ rounds ih =>
    rw [receiveOrSleep_succ]
    apply Restores.bind (restores_round restores id)
    intro answer
    cases answer with
    | some a => exact .pure a
    | none => exact ih

theorem restores_call (k : Call) : Restores shut (call elsewhere k) := by
  cases k with
  | create => exact .map (.masked (.withTasks _)) _
  | prime => exact .map (.bind .get fun _ => .masked (.withTasks _)) _
  | spawn => exact .map (.bind .get fun _ => .masked (.withTasks _)) _
  | wakeup | send | receive | setWindow => exact .map (.masked (.withTasks _)) _
  | sleep id => exact .map (restores_sleep restores id) _
  | receiveOrSleep id => exact .bind .get fun _ => .map (restores_receiveOrSleep restores id _) _
  | addTimer ticks value owner => exact .map (.addTimer ticks value owner) _
  | timerInterrupt saved => exact .map (.masked (restores_timerInterrupt saved)) _
  | timerTrap saved => exact .map (.masked (restores_timerTrap saved)) _
  | pageFault code address => exact .map (.masked (.pageFault code address)) _
  | idle => exact .map (.emit fun _ _ => rfl) _
  | install =>
    apply Restores.map
    exact .update (g := fun c => { c with installed := true }) fun _ => ⟨rfl, rfl, rfl, rfl, rfl⟩
  | faultTrap code address =>
    apply Restores.bind (.masked (.faultTrap code address))
    intro goesOn
    cases goesOn <;> exact .pure _

theorem restores_perform (a : Act) : Restores shut (perform elsewhere a) := by
  cases a with
  | call k => exact restores_call restores k
  | task id => exact .masked (.withTasks _)
  | translate => exact .bind .get fun _ => .pure _
  | loadCr3 => exact .bind (.update fun _ => ⟨rfl, rfl, rfl, rfl, rfl⟩) fun _ => .pure _
  | newUserTree => exact .bind .get fun _ => .bind (.masked (.withFrames _)) fun _ => .pure _
  | poke => exact .bind (.update fun _ => ⟨rfl, rfl, rfl, rfl, rfl⟩) fun _ => .pure _
  | allocate | release => exact .masked (.withFrames _)

theorem restores_play (script : List Act) : Restores shut (play elsewhere script) := by
  induction script with
  | nil => exact .pure ()
  | cons a rest ih =>
    apply Restores.bind (restores_perform restores a)
    intro r
    apply Restores.bind (.emit fun _ _ => rfl)
    intro _
    cases r.isHalted with
    | false => exact ih
    | true => exact .pure ()

end

/-- Whoever gets control hands it back with the machine as it was. -/
theorem restores_away (depth : Nat) : Restores shut (away depth) := by
  induction depth generalizing shut with
  | zero => exact .pure ()
  | succ depth ih =>
    apply Restores.bind .get
    intro c
    cases c.scripts with
    | nil => exact .pure ()
    | cons script rest =>
      apply Restores.bind (.update (g := fun c => { c with scripts := rest })
        fun _ => ⟨rfl, rfl, rfl, rfl, rfl⟩)
      exact fun _ => restores_play ih script

theorem restored_step {a : Act} {r : Answer} {events : List Event} (free : Free c)
    (done : (c.step a).run.value = .ok (r, events, d)) :
    d.interrupts = c.interrupts ∧ Free d ∧ ∀ e ∈ events, e.orderly = true := by
  obtain ⟨ran, rfl⟩ := step_eq_ok.mp done
  have restores : Restores false (perform (away c.scripts.length) a) :=
    restores_perform (restores_away _) a
  have back := restores { c with events := [] } r d ⟨free.timers, free.tasks, free.frames⟩
    nofun ran
  obtain ⟨es, told, orderly⟩ := back.orderly
  exact ⟨back.interrupts, back.free, told ▸ orderly⟩

/-- **Locks and interrupts are handed back as they were found.** Take a core with every lock free
and either value of the flag. Whatever it is asked for, with whatever arguments and however that
ends, as long as what gets control meanwhile does the same: the flag is back at its value and every
lock is free; control was given away only with interrupts masked and no lock held; and nobody asked
for a lock that he held. So it is for a task that waits for a message, through all the rounds that
it sleeps, and for whatever is run on the scheduler, the allocator or the timers under their locks.
The bare handlers rely on interrupts being masked already. What gets control is other acts, and
these comply. -/
theorem locks_and_mask_handed_back :
    (∀ elsewhere : CoreM Unit, Restores true elsewhere →
      (∀ a : Act, Restores false (perform elsewhere a)) ∧
      ∀ id rounds, Restores false (receiveOrSleep elsewhere id rounds)) ∧
    (∀ saved : Context, Restores true (timerInterrupt saved) ∧ Restores true (timerTrap saved)) ∧
    (∀ code address : Nat,
      Restores true (pageFault code address) ∧ Restores true (faultTrap code address)) ∧
    (∀ (α : Type) (f : Scheduler → Logged (α × Scheduler)), Restores false (masked (withTasks f))) ∧
    (∀ (α : Type) (f : Store → Logged (α × Store)), Restores false (masked (withFrames f))) ∧
    (∀ (α : Type) (f : Timers → α), Restores false (masked (withTimers fun ts => pure (f ts, ts)))) ∧
    ∀ (c d : Core) (a : Act) (r : Answer) (events : List Event), Free c →
      (c.step a).run.value = .ok (r, events, d) →
      d.interrupts = c.interrupts ∧ Free d ∧ ∀ e ∈ events, e.orderly = true := by
  refine ⟨?acts, ?timer, ?faults, ?tasks, ?frames, ?clock, ?steps⟩
  case acts =>
    intro elsewhere restores
    exact ⟨restores_perform restores, restores_receiveOrSleep restores⟩
  case timer => exact fun saved => ⟨restores_timerInterrupt saved, restores_timerTrap saved⟩
  case faults => exact fun code address => ⟨.pageFault code address, .faultTrap code address⟩
  case tasks => exact fun α f => .masked (.withTasks f)
  case frames => exact fun α f => .masked (.withFrames f)
  case clock =>
    intro α f
    apply Restores.masked
    apply Restores.withTimers
    intro ts c r d done
    cases done
    rfl
  case steps => exact fun c d a r events free done => restored_step free done

/-- The main task waits for a message. The idle task, which was switched to, sends it one and is
interrupted by the timer twice, the second time to give the turn back. -/
theorem locks_and_mask_handed_back_main :
    let script : List Act := [.call (.send 1 .interruptXhci), .call (.timerInterrupt .zero),
      .call (.timerInterrupt .zero)]
    let c := (new 0 .zero (.full 1) 0 [script]).value
    Free c ∧ Restores false (perform (away 1) (.call (.receiveOrSleep 1))) ∧
      ∃ r events d, (c.step (.call (.receiveOrSleep 1))).run.value = .ok (r, events, d) ∧
        events.filterMap Event.transfer? = [.switchContext 1 2, .restoreContext 1] ∧
        d.interrupts = ⟨true⟩ ∧ Free d ∧ ∀ e ∈ events, e.orderly = true := by
  intro script c
  have free : Free c := ⟨rfl, rfl, rfl⟩
  have told : ((c.step (.call (.receiveOrSleep 1))).run.value.toOption.map fun r =>
      r.2.1.filterMap Event.transfer?) = some [.switchContext 1 2, .restoreContext 1] := by
    simp only [c, script]
    decide +kernel
  obtain ⟨acts, -, -, -, -, -, steps⟩ := locks_and_mask_handed_back
  obtain ⟨⟨r, events, d⟩, done, transfers⟩ := exists_of_told told
  apply And.intro free (And.intro ((acts _ (restores_away 1)).1 _) _)
  exact ⟨r, events, d, done, transfers, steps c d _ r events free done⟩

end Core

end Nucleus
