import Nucleus.Core.Script
import Nucleus.Proofs.Task.Mailboxes
import Nucleus.Proofs.Task.Switches
import Nucleus.Proofs.Task.Ticks

/-!
# Runs of the core

What comes of a computation on a core, without its log, and what such a computation leaves as it
was. Most of the core's work is done on its scheduler, and what holds of the scheduler is carried
through all of it.

* `eval`: the answer and the core that is left, or the panic.
* `Keeps`: a property of the scheduler, the transfers of control so far and the scripts that are
  left that a computation keeps.
* `Reachable`: what a core can come to, from its start on.
-/

namespace Nucleus

/-- A transfer of control, as the processor is asked for it. -/
inductive Transfer where
  | switchContext (save load : TaskId)
  | restoreContext (load : TaskId)
deriving DecidableEq, Repr

def Event.transfer? : Event → Option Transfer
  | .switchContext w _ => some (.switchContext w.save w.load)
  | .restoreContext id _ => some (.restoreContext id)
  | _ => none

namespace Core
variable {α β : Type}

/-- The transfers of control that a core has asked for, the oldest first. -/
def transfers (c : Core) : List Transfer := c.events.filterMap Event.transfer?

def eval (x : CoreM α) (c : Core) : Except Panic (α × Core) := (x.run c).run.value

/-- Of a run that is evaluated to what its answer tells, that it has an answer. -/
theorem exists_of_told {ε : Type} {x : Except ε α} {f : α → β} {b : β}
    (told : x.toOption.map f = some b) : ∃ a, x = .ok a ∧ f a = b := by
  cases x with
  | error e => cases told
  | ok a => exact ⟨a, rfl, Option.some.inj told⟩

@[simp] theorem eval_pure (a : α) (c : Core) : eval (pure a) c = .ok (a, c) := rfl

@[simp] theorem eval_bind (x : CoreM α) (f : α → CoreM β) (c : Core) :
    eval (x >>= f) c = (eval x c).bind fun r => eval (f r.1) r.2 := by
  rw [eval, StateT.run_bind, Checked.value_run_bind]
  rfl

@[simp] theorem eval_get (c : Core) : eval get c = .ok (c, c) := rfl

@[simp] theorem eval_modify (g : Core → Core) (c : Core) : eval (modify g) c = .ok ((), g c) := rfl

@[simp] theorem eval_lift (x : Logged α) (c : Core) : eval (lift x) c = .ok (x.value, c) := rfl

@[simp] theorem eval_map (f : α → β) (x : CoreM α) (c : Core) :
    eval (f <$> x) c = (eval x c).map fun r => (f r.1, r.2) := by
  rw [map_eq_pure_bind, eval_bind]
  cases eval x c <;> rfl

@[simp] theorem eval_emit (e : Moment → Event) (c : Core) :
    eval (emit e) c = .ok ((), { c with events := c.events ++ [e c.moment] }) := rfl

theorem eval_checked (x : Checked α) (c : Core) :
    eval (StateT.lift x) c = x.run.value.map fun a => (a, c) := by
  rw [eval, StateT.run_lift, Checked.value_run_bind]
  cases x.run.value <;> rfl

theorem eval_bind_eq_ok {x : CoreM α} {f : α → CoreM β} {c c' : Core} {b : β} :
    eval (x >>= f) c = .ok (b, c') ↔
      ∃ a d, eval x c = .ok (a, d) ∧ eval (f a) d = .ok (b, c') := by
  rw [eval_bind]
  cases eval x c with
  | error p => simp [Except.bind]
  | ok r => simp [Except.bind, Prod.ext_iff, and_assoc]

theorem eval_map_eq_ok {x : CoreM α} {f : α → β} {c c' : Core} {b : β} :
    eval (f <$> x) c = .ok (b, c') ↔ ∃ a, eval x c = .ok (a, c') ∧ f a = b := by
  rw [eval_map]
  cases eval x c with
  | error p => simp [Except.map]
  | ok r =>
    constructor
    · rintro ⟨⟩
      exact ⟨r.1, rfl, rfl⟩
    · rintro ⟨a, ⟨⟩, rfl⟩
      rfl

/-! ## Masks and locks -/

theorem eval_masked (body : CoreM α) (c : Core) :
    eval (masked body) c =
      (eval body { c with interrupts := c.interrupts.mask.2 }).map fun r =>
        (r.1, { r.2 with interrupts := r.2.interrupts.unmask c.interrupts.mask.1 }) := by
  simp only [masked, eval_bind, eval_get, eval_modify, eval_pure, Except.bind]
  cases eval body { c with interrupts := c.interrupts.mask.2 } <;> rfl

theorem masked_eq_ok {body : CoreM α} {c c' : Core} {a : α}
    (done : eval (masked body) c = .ok (a, c')) :
    ∃ e, eval body { c with interrupts := c.interrupts.mask.2 } = .ok (a, e) ∧
      e.tasks = c'.tasks ∧ e.scripts = c'.scripts := by
  rw [eval_masked] at done
  cases ran : eval body { c with interrupts := c.interrupts.mask.2 } with
  | error p =>
    rw [ran] at done
    cases done
  | ok r =>
    rw [ran] at done
    cases done
    exact ⟨r.2, rfl, rfl, rfl⟩

/-- What is noted when a lock is asked for. -/
def contention (held : Bool) (l : LockName) : List Event := if held then [.contended l] else []

@[simp] theorem eval_noteContention (held : Bool) (l : LockName) (c : Core) :
    eval (noteContention held l) c =
      .ok ((), { c with events := c.events ++ contention held l }) := by
  cases held
  · simp [noteContention, contention]
  · rfl

theorem transfers_contention (held : Bool) (l : LockName) :
    (contention held l).filterMap Event.transfer? = [] := by
  cases held <;> rfl

theorem eval_withTasks (f : Scheduler → Logged (α × Scheduler)) (c : Core) :
    eval (withTasks f) c =
      .ok ((f c.tasks.value).value.1,
        { c with
          tasks := ⟨false, (f c.tasks.value).value.2⟩
          events := c.events ++ contention c.tasks.held .tasks }) := by
  simp only [withTasks, eval_bind, eval_get, eval_noteContention, eval_modify, eval_lift,
    eval_pure, Except.bind, SpinLock.value_lock, SpinLock.unlock]

/-- Work under the lock of the scheduler asks for no transfer. -/
theorem exists_withTasks (f : Scheduler → Logged (α × Scheduler)) (c : Core) :
    ∃ d, eval (withTasks f) c = .ok ((f c.tasks.value).value.1, d) ∧
      d.tasks.value = (f c.tasks.value).value.2 ∧ d.transfers = c.transfers :=
  ⟨_, eval_withTasks f c, rfl, by simp [transfers, transfers_contention]⟩

theorem eval_withFrames (f : Store → Logged (α × Store)) (c : Core) :
    eval (withFrames f) c =
      .ok ((f ⟨c.frames.value, c.memory⟩).value.1,
        { c with
          frames := ⟨false, (f ⟨c.frames.value, c.memory⟩).value.2.frames⟩
          memory := (f ⟨c.frames.value, c.memory⟩).value.2.memory
          events := c.events ++ contention c.frames.held .frames }) := by
  simp only [withFrames, eval_bind, eval_get, eval_noteContention, eval_modify, eval_lift,
    eval_pure, Except.bind, SpinLock.value_lock, SpinLock.unlock]

/-! ## What a computation keeps -/

/-- `P` holds of the scheduler, the transfers so far and the scripts that are left after `x`, if it
did before. -/
def Keeps (P : Scheduler → List Transfer → List (List Act) → Prop) (x : CoreM α) : Prop :=
  ∀ c a c', eval x c = .ok (a, c') →
    P c.tasks.value c.transfers c.scripts → P c'.tasks.value c'.transfers c'.scripts

variable {P : Scheduler → List Transfer → List (List Act) → Prop}

theorem Keeps.pure (a : α) : Keeps P (Pure.pure a : CoreM α) := by
  intro c b c' h holds
  cases h
  exact holds

theorem Keeps.bind {x : CoreM α} {f : α → CoreM β} (hx : Keeps P x) (hf : ∀ a, Keeps P (f a)) :
    Keeps P (x >>= f) := by
  intro c b c' h holds
  obtain ⟨a, d, first, second⟩ := eval_bind_eq_ok.mp h
  exact hf a d b c' second (hx c a d first holds)

theorem Keeps.map {x : CoreM α} (hx : Keeps P x) (f : α → β) : Keeps P (f <$> x) := by
  rw [map_eq_pure_bind]
  exact hx.bind fun a => .pure (f a)

theorem Keeps.get : Keeps P (MonadState.get : CoreM Core) := by
  intro c a c' h holds
  cases h
  exact holds

theorem Keeps.update {g : Core → Core}
    (same : ∀ c, (g c).tasks.value = c.tasks.value ∧ (g c).events = c.events ∧
      (g c).scripts = c.scripts) : Keeps P (modify g) := by
  intro c a c' h holds
  cases h
  rw [transfers, (same c).1, (same c).2.1, (same c).2.2]
  exact holds

theorem Keeps.emit {e : Moment → Event}
    (told : ∀ s ts q m, P s ts q → P s (ts ++ (e m).transfer?.toList) q) : Keeps P (Core.emit e) := by
  intro c a c' h holds
  cases h
  have added : transfers { c with events := c.events ++ [e c.moment] } =
      c.transfers ++ (e c.moment).transfer?.toList := by
    rw [transfers, transfers, List.filterMap_append]
    cases told : (e c.moment).transfer? <;> simp [told]
  rw [added]
  exact told _ _ _ _ holds

theorem Keeps.quiet {e : Moment → Event} (silent : ∀ m, (e m).transfer? = none) :
    Keeps P (Core.emit e) :=
  .emit fun s ts q m holds => by simpa [silent] using holds

theorem Keeps.checked (x : Checked α) : Keeps P (StateT.lift x) := by
  intro c a c' h holds
  rw [eval_checked] at h
  cases answer : x.run.value with
  | error p =>
    rw [answer] at h
    cases h
  | ok b =>
    rw [answer] at h
    cases h
    exact holds

theorem Keeps.noteContention (held : Bool) (l : LockName) :
    Keeps P (Core.noteContention held l) := by
  cases held
  · exact .pure ()
  · exact .quiet (e := fun _ => .contended l) fun _ => rfl

theorem Keeps.masked {body : CoreM α} (h : Keeps P body) : Keeps P (Core.masked body) := by
  refine .bind .get fun c => .bind (.update fun _ => ⟨rfl, rfl, rfl⟩) fun _ => .bind h fun a => ?_
  exact .bind (.update fun _ => ⟨rfl, rfl, rfl⟩) fun _ => .pure a

theorem Keeps.withTasks {f : Scheduler → Logged (α × Scheduler)}
    (h : ∀ s ts q, P s ts q → P (f s).value.2 ts q) : Keeps P (Core.withTasks f) := by
  intro c a c' done holds
  rw [eval_withTasks] at done
  cases done
  simpa [transfers, transfers_contention] using h _ _ _ holds

theorem Keeps.withFrames (f : Store → Logged (α × Store)) : Keeps P (Core.withFrames f) := by
  intro c a c' done holds
  rw [eval_withFrames] at done
  cases done
  simpa [transfers, transfers_contention] using holds

theorem Keeps.withTimers {f : Timers → CoreM (α × Timers)} (h : ∀ ts, Keeps P (f ts)) :
    Keeps P (Core.withTimers f) := by
  refine .bind .get fun c => .bind (.noteContention _ _) fun _ =>
    .bind (.update fun c => ⟨rfl, rfl, rfl⟩) fun _ => .bind .get fun c => .bind (h _) fun r => ?_
  exact .bind (.update fun _ => ⟨rfl, rfl, rfl⟩) fun _ => .bind (.update fun _ => ⟨rfl, rfl, rfl⟩) fun _ =>
    .pure r.1

/-! ## Operations -/

theorem Keeps.operation (op : Scheduler.Operation)
    (kept : ∀ s ts q, P s ts q → P (s.perform op).value.2 ts q)
    {f : Scheduler → Logged (α × Scheduler)}
    (same : ∀ s, (f s).value.2 = (s.perform op).value.2) : Keeps P (Core.withTasks f) :=
  .withTasks fun s ts q holds => same s ▸ kept s ts q holds

/-- `P` does not notice what the scheduler does without moving the turn on. -/
def Closed (P : Scheduler → List Transfer → List (List Act) → Prop) : Prop :=
  ∀ s ts q op, op.yields = false → P s ts q → P (s.perform op).value.2 ts q

/-- `P` does not notice what the scheduler does without moving the turn on or dealing messages. -/
def Quiet (P : Scheduler → List Transfer → List (List Act) → Prop) : Prop :=
  ∀ s ts q op, op.yields = false → op.deals = false → P s ts q → P (s.perform op).value.2 ts q

theorem Closed.quiet (closed : Closed P) : Quiet P := fun s ts q op steady _ => closed s ts q op steady

theorem Closed.locked (closed : Closed P) {f : Scheduler → Logged (α × Scheduler)}
    (op : Scheduler.Operation) (steady : op.yields = false)
    (same : ∀ s, (f s).value.2 = (s.perform op).value.2) {g : α → β} :
    Keeps P (g <$> Core.masked (Core.withTasks f)) :=
  .map (.masked (.operation op (fun s ts q => closed s ts q op steady) same)) g

theorem Quiet.locked (quiet : Quiet P) {f : Scheduler → Logged (α × Scheduler)}
    (op : Scheduler.Operation) (steady : op.yields = false) (silent : op.deals = false)
    (same : ∀ s, (f s).value.2 = (s.perform op).value.2) {g : α → β} :
    Keeps P (g <$> Core.masked (Core.withTasks f)) :=
  .map (.masked (.operation op (fun s ts q => quiet s ts q op steady silent) same)) g

theorem Quiet.spawn (quiet : Quiet P) (entry : UInt64) (arg : Int64) (level : Option Nat)
    (areas : Stacks) : Keeps P (Core.spawn entry arg level areas) := by
  refine .bind .get fun c => .masked (.withTasks fun s ts q holds => ?_)
  have created : P s.create.value.2 ts q := quiet s ts q .create rfl rfl holds
  let id := s.create.value.1
  have primed : P (s.create.value.2.prime id entry arg (UInt64.ofNat c.cr3) areas).2 ts q :=
    quiet _ ts q (.prime id entry arg _ areas) rfl rfl created
  simp only [Logged.value_bind]
  rcases answer : s.create.value.2.prime id entry arg (UInt64.ofNat c.cr3) areas with
    ⟨_ | _, s'⟩
  · rw [answer] at primed
    exact primed
  · rw [answer] at primed
    have woken : P (s'.wakeup s.create.value.1 level).value.2 ts q :=
      quiet s' ts q (.wakeup _ level) rfl rfl primed
    simp only [Logged.value_bind]
    rcases answer : (s'.wakeup s.create.value.1 level).value with ⟨_ | _, s''⟩ <;>
      rw [answer] at woken <;> exact woken

theorem eval_tick (c : Core) :
    eval tick c = ((c.timers.value.tick c.tasks.value).run.value).map fun r =>
      (r.1, { c with
        timers := ⟨false, r.2.1⟩
        tasks := ⟨false, r.2.2⟩
        events := c.events ++ contention c.timers.held .timers ++
          contention c.tasks.held .tasks }) := by
  simp only [tick, withTimers, eval_bind, eval_get, eval_noteContention, eval_modify, eval_checked,
    eval_pure, Except.bind, SpinLock.value_lock, SpinLock.unlock]
  cases (c.timers.value.tick c.tasks.value).run.value <;> rfl

theorem Closed.tick (closed : Closed P) : Keeps P Core.tick := by
  intro c due c' done holds
  rw [eval_tick] at done
  cases ticked : (c.timers.value.tick c.tasks.value).run.value with
  | error p =>
    rw [ticked] at done
    cases done
  | ok r =>
    rw [ticked] at done
    cases done
    have kept := Timers.tick_keeps (Q := fun s => P s c.transfers c.scripts)
      (fun s id message holds => closed s _ _ (.send id message) rfl holds) holds ticked
    simpa [transfers, transfers_contention] using kept

end Core

/-! ## Acts -/

/-- Whether a call can give control away. -/
def Call.yields : Call → Bool
  | .sleep _ | .receiveOrSleep _ | .timerInterrupt _ | .timerTrap _ => true
  | _ => false

def Act.yields : Act → Bool
  | .call k => k.yields
  | _ => false

/-- Whether a call that keeps control deals messages. -/
def Call.deals : Call → Bool
  | .send _ _ | .receive _ => true
  | _ => false

def Act.deals : Act → Bool
  | .call k => k.deals
  | _ => false

namespace Core
variable {P : Scheduler → List Transfer → List (List Act) → Prop}

theorem Keeps.pageFault (code address : Nat) : Keeps P (Core.pageFault code address) :=
  .bind (.withTasks fun _ _ _ holds => holds) fun _ => .bind .get fun _ => .withFrames _

theorem Keeps.faultTrap (code address : Nat) : Keeps P (Core.faultTrap code address) := by
  refine .bind .get fun c => ?_
  cases c.installed with
  | false => exact .bind (.checked _) fun _ => .pure _
  | true =>
    refine .bind (.pageFault code address) fun r => ?_
    cases r with
    | ok _ => exact .pure _
    | error e => exact .bind (.checked _) fun _ => .pure _

theorem Quiet.call (quiet : Quiet P) (away : CoreM Unit) {k : Call} (steady : k.yields = false)
    (silent : k.deals = false) : Keeps P (Core.call away k) := by
  cases k with
  | create => exact quiet.locked (f := Scheduler.create) .create rfl rfl fun _ => rfl
  | prime id entry arg areas =>
    refine .map (.bind .get fun c => .masked ?_) _
    exact .operation (.prime id entry arg (UInt64.ofNat c.cr3) areas)
      (fun s ts q => quiet s ts q _ rfl rfl) fun _ => rfl
  | spawn entry arg level areas => exact (quiet.spawn entry arg level areas).map _
  | wakeup id level =>
    exact quiet.locked (f := fun s => s.wakeup id level) (.wakeup id level) rfl rfl fun _ => rfl
  | setWindow id window =>
    exact quiet.locked (f := fun s => pure (s.setWindow id window)) (.setWindow id window) rfl rfl
      fun _ => rfl
  | addTimer ticks value owner =>
    exact .map (.masked (.withTimers fun ts => .bind (.checked _) fun _ => .pure _)) _
  | pageFault code address => exact .map (.masked (.pageFault code address)) _
  | idle => exact .map (.quiet fun _ => rfl) _
  | install =>
    exact .map (.update (g := fun c => { c with installed := true }) fun _ => ⟨rfl, rfl, rfl⟩) _
  | faultTrap code address =>
    refine .bind (.masked (.faultTrap code address)) fun goesOn => ?_
    cases goesOn <;> exact .pure _
  | send | receive => cases silent
  | sleep | receiveOrSleep | timerInterrupt | timerTrap => cases steady

theorem Quiet.perform (quiet : Quiet P) (away : CoreM Unit) {a : Act} (steady : a.yields = false)
    (silent : a.deals = false) : Keeps P (Core.perform away a) := by
  cases a with
  | call k => exact quiet.call away steady silent
  | task id =>
    refine .masked (.withTasks fun s ts q holds => ?_)
    cases s.task? id <;> exact holds
  | translate address => exact .bind .get fun _ => .pure _
  | loadCr3 value =>
    refine .bind (.update (g := fun c => { c with cr3 := value }) fun _ => ⟨rfl, rfl, rfl⟩) fun _ => ?_
    exact .pure _
  | newUserTree => exact .bind .get fun _ => .bind (.masked (.withFrames _)) fun _ => .pure _
  | poke frame index e => exact .bind (.update fun _ => ⟨rfl, rfl, rfl⟩) fun _ => .pure _
  | allocate n => exact .masked (.withFrames _)
  | release start n => exact .masked (.withFrames _)

theorem Closed.perform (closed : Closed P) (away : CoreM Unit) {a : Act}
    (steady : a.yields = false) : Keeps P (Core.perform away a) := by
  cases deals : a.deals with
  | false => exact closed.quiet.perform away steady deals
  | true =>
    cases a with
    | call k =>
      cases k with
      | send id message =>
        exact closed.locked (f := fun s => s.send id message) (.send id message) rfl fun _ => rfl
      | receive id =>
        exact closed.locked (f := fun s => pure (s.receive id)) (.receive id) rfl fun _ => rfl
      | _ => cases deals
    | _ => cases deals

/-! ## Runs -/

/-- No act that is allowed breaks `P`, neither by what it does to the scheduler nor by the transfers
that it asks for; and the scripts hold no other acts. -/
structure Stable (allowed : Act → Prop) (P : Scheduler → List Transfer → List (List Act) → Prop) :
    Prop where
  perform : ∀ s ts q op, op.sleeps = false → P s ts q → P (s.perform op).value.2 ts q
  attempt : ∀ s ts q id, P s ts q → P (Core.attempt id s).value.2 ts q
  sleep : ∀ s ts q id, allowed (.call (.sleep id)) → P s ts q → P (s.sleep id).value.2 ts q
  transfer : ∀ s ts q t, P s ts q → P s (ts ++ [t]) q
  script : ∀ s ts script q, P s ts (script :: q) → P s ts q ∧ ∀ a ∈ script, allowed a

/-- What all operations of the scheduler keep is kept by an attempt to receive. -/
theorem attempt_keeps {Q : Scheduler → Prop} (each : ∀ s op, Q s → Q (s.perform op).value.2)
    {s : Scheduler} (holds : Q s) (id : TaskId) : Q (attempt id s).value.2 := by
  have taken : Q (s.receive id).2 := each s (.receive id) holds
  rw [attempt]
  rcases looked : s.receive id with ⟨_ | _ | _, s'⟩ <;> rw [looked] at taken
  · exact taken
  · have slept : Q (s'.sleep id).value.2 := each s' (.sleep id) taken
    rw [Logged.value_bind]
    rcases answer : (s'.sleep id).value with ⟨_ | _ | _, s''⟩ <;> rw [answer] at slept <;>
      exact slept
  · exact taken

theorem stable_of_perform {Q : Scheduler → Prop} (each : ∀ s op, Q s → Q (s.perform op).value.2) :
    Stable (fun _ => True) fun s _ _ => Q s where
  perform s _ _ op _ holds := each s op holds
  attempt _ _ _ id holds := attempt_keeps each holds id
  sleep s _ _ id _ holds := each s (.sleep id) holds
  transfer _ _ _ _ holds := holds
  script _ _ _ _ holds := ⟨holds, fun _ _ => trivial⟩

/-- One round of `receiveOrSleep`: an attempt, and the switch away if the task was put to sleep. -/
def round (away : CoreM Unit) (id : TaskId) : CoreM (Option (Except TaskError (Option Message))) :=
  masked do
    match ← withTasks (attempt id) with
    | .refused e => pure (some (.error e))
    | .received m => pure (some (.ok (some m)))
    | .stuck => pure (some (.ok none))
    | .suspended w => do
      switchTo away w
      pure none

theorem receiveOrSleep_succ (away : CoreM Unit) (id : TaskId) (rounds : Nat) :
    receiveOrSleep away id (rounds + 1) = (do
      match ← round away id with
      | some a => pure a
      | none => receiveOrSleep away id rounds) := rfl

section
variable {allowed : Act → Prop} {elsewhere : CoreM Unit} (stable : Stable allowed P)
include stable

theorem Stable.closed : Closed P := by
  intro s ts q op steady
  refine stable.perform s ts q op ?_
  cases op <;> first | rfl | cases steady

theorem Stable.emit (e : Moment → Event) : Keeps P (Core.emit e) := by
  refine .emit fun s ts q m holds => ?_
  cases (e m).transfer? with
  | none => simpa using holds
  | some t => exact stable.transfer s ts q t holds

theorem Stable.switchTo (kept : Keeps P elsewhere) (w : Switch) :
    Keeps P (Core.switchTo elsewhere w) :=
  .bind (stable.emit _) fun _ => kept

theorem Stable.sleeping (kept : Keeps P elsewhere) {id : TaskId}
    (may : allowed (.call (.sleep id))) : Keeps P (Core.sleep elsewhere id) := by
  refine .masked (.bind (.withTasks fun s ts q => stable.sleep s ts q id may) fun r => ?_)
  rcases r with e | _ | w
  · exact .pure _
  · exact .pure _
  · exact .bind (stable.switchTo kept w) fun _ => .pure _

theorem Stable.round (kept : Keeps P elsewhere) (id : TaskId) :
    Keeps P (Core.round elsewhere id) := by
  refine .masked (.bind (.withTasks fun s ts q => stable.attempt s ts q id) fun r => ?_)
  cases r with
  | refused | received | stuck => exact .pure _
  | suspended w => exact .bind (stable.switchTo kept w) fun _ => .pure _

theorem Stable.receiveOrSleep (kept : Keeps P elsewhere) (id : TaskId) (rounds : Nat) :
    Keeps P (Core.receiveOrSleep elsewhere id rounds) := by
  induction rounds with
  | zero => exact .pure _
  | succ rounds ih =>
    refine .bind (stable.round kept id) fun answer => ?_
    cases answer with
    | some a => exact .pure a
    | none => exact ih

theorem Stable.timerInterrupt (saved : Context) : Keeps P (Core.timerInterrupt saved) := by
  refine .bind stable.closed.tick fun due => .bind (stable.emit _) fun _ => ?_
  cases due with
  | false => exact .pure ()
  | true =>
    refine .bind (.withTasks fun s ts q => stable.perform s ts q (.preempt saved) rfl) fun w => ?_
    cases w with
    | none => exact .pure ()
    | some w => exact stable.emit _

theorem Stable.timerTrap (saved : Context) : Keeps P (Core.timerTrap saved) := by
  refine .bind .get fun c => ?_
  cases c.installed with
  | false => exact stable.emit _
  | true => exact stable.timerInterrupt saved

theorem Stable.act (kept : Keeps P elsewhere) {a : Act} (may : allowed a) :
    Keeps P (Core.perform elsewhere a) := by
  cases steady : a.yields with
  | false => exact stable.closed.perform elsewhere steady
  | true =>
    rcases a with ⟨k⟩ | _ | _ | _ | _ | _ | _ | _
    case call =>
      cases k with
      | sleep id => exact (stable.sleeping kept may).map _
      | receiveOrSleep id => exact .bind .get fun c => (stable.receiveOrSleep kept id _).map _
      | timerInterrupt saved => exact .map (.masked (stable.timerInterrupt saved)) _
      | timerTrap saved => exact .map (.masked (stable.timerTrap saved)) _
      | _ => cases steady
    all_goals cases steady

theorem Stable.play (kept : Keeps P elsewhere) (script : List Act) (may : ∀ a ∈ script, allowed a) :
    Keeps P (Core.play elsewhere script) := by
  induction script with
  | nil => exact .pure ()
  | cons a rest ih =>
    refine .bind (stable.act kept (may a (.head rest))) fun r => .bind (stable.emit _) fun _ => ?_
    cases r.isHalted with
    | false => exact ih fun b later => may b (.tail a later)
    | true => exact .pure ()

/-- However deep callers are switched away. -/
theorem Stable.away (depth : Nat) : Keeps P (Core.away depth) := by
  induction depth with
  | zero => exact .pure ()
  | succ depth ih =>
    intro c a c' done holds
    obtain ⟨_, _, seen, rest⟩ := eval_bind_eq_ok.mp done
    cases seen
    cases left : c.scripts with
    | nil =>
      rw [left] at rest
      cases rest
      exact holds
    | cons script others =>
      rw [left] at rest holds
      obtain ⟨_, _, taken, played⟩ := eval_bind_eq_ok.mp rest
      cases taken
      obtain ⟨holds, may⟩ := stable.script _ _ _ _ holds
      exact stable.play ih script may _ _ _ played holds

end

/-- What a core can come to. By `schedule` and `around` it is also seen in the midst of an act,
where a caller has left it to others. -/
inductive Reachable : Core → Prop where
  | start (cr3 : Nat) (memory : Memory) (frames : Frames) (idleEntry : UInt64)
      (scripts : List (List Act)) (areas : Stacks) :
      Reachable (new cr3 memory frames idleEntry scripts areas).value
  | next {c c' : Core} {r : Answer} {events : List Event} (a : Act) : Reachable c →
      (c.step a).run.value = .ok (r, events, c') → Reachable c'
  /-- An operation on the scheduler alone, under its lock. -/
  | schedule {c : Core} (op : Scheduler.Operation) : Reachable c →
      Reachable { c with tasks := .new (c.tasks.value.perform op).value.2 }
  | around {c : Core} (interrupts : Interrupts) (scripts : List (List Act)) (events : List Event) :
      Reachable c → Reachable { c with interrupts, scripts, events }

theorem eval_step (c : Core) (a : Act) :
    (c.step a).run.value =
      (eval (perform (away c.scripts.length) a) { c with events := [] }).map fun r =>
        (r.1, r.2.events, r.2) := by
  rw [step, Checked.value_run_bind, eval]
  cases ((perform (away c.scripts.length) a).run { c with events := [] }).run.value <;> rfl

theorem step_eq_ok {c c' : Core} {a : Act} {r : Answer} {events : List Event} :
    (c.step a).run.value = .ok (r, events, c') ↔
      eval (perform (away c.scripts.length) a) { c with events := [] } = .ok (r, c') ∧
        events = c'.events := by
  rw [eval_step]
  cases eval (perform (away c.scripts.length) a) { c with events := [] } with
  | error p => simp [Except.map]
  | ok answer =>
    obtain ⟨r', d⟩ := answer
    simp only [Except.map, Except.ok.injEq, Prod.mk.injEq]
    constructor
    · rintro ⟨rfl, rfl, rfl⟩
      exact ⟨⟨rfl, rfl⟩, rfl⟩
    · rintro ⟨⟨rfl, rfl⟩, rfl⟩
      exact ⟨rfl, rfl, rfl⟩

theorem Reachable.tasks {c : Core} (reach : Reachable c) : c.tasks.value.Reachable := by
  induction reach with
  | start cr3 _ _ idleEntry _ areas => exact .start idleEntry (UInt64.ofNat cr3) areas
  | @next c c' r events a _ done ih =>
    have stable := stable_of_perform (Q := Scheduler.Reachable) fun _ op reach => .next op reach
    obtain ⟨ran, -⟩ := step_eq_ok.mp done
    exact stable.act (stable.away _) trivial _ _ _ ran ih
  | schedule op _ ih => exact .next op ih
  | around _ _ _ _ ih => exact ih

theorem Reachable.schedules {c : Core} (ops : List Scheduler.Operation) (reach : Reachable c)
    (free : c.tasks.held = false) : Reachable { c with tasks := .new (c.tasks.value.run ops) } := by
  induction ops generalizing c with
  | nil =>
    obtain ⟨_, _, _, _, ⟨held, value⟩, _, _, _, _⟩ := c
    cases free
    exact reach
  | cons op ops ih => exact ih (.schedule op reach) rfl

end Core

end Nucleus
