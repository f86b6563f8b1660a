import Nucleus.Journal
import Nucleus.Task.Basic

/-!
# Scheduler

One run queue per level. The executing task is the head of the queue at the current level, and the
current level is the highest with a runnable task, once a pending change of level has been seen
to.

* `wakeup`, `sleep`, `send`, `receive`, `prime`, `setWindow`: operations on one task.
* `preempt`: the executing task goes to the tail of its queue and the next one is due.
* `Switch`: a transfer of control that an operation asks for. A task has one context, so the two
  contexts are named by their tasks. Nothing here touches the processor.

Each operation answers with the scheduler it leaves, also when it refuses.
-/

namespace Nucleus
open Platform

/-- Control goes from `current` to `next`. -/
structure Switch where
  current : TaskId
  next : TaskId
deriving DecidableEq, Repr

/-- The task whose context takes the registers. -/
def Switch.save (w : Switch) : TaskId := w.current

/-- The task whose context is loaded. -/
def Switch.load (w : Switch) : TaskId := w.next

structure Scheduler where
  /-- Task `id` is at place `id - 1`. -/
  tasks : Array Task
  queues : Vector (List TaskId) 8
  level : Priority
  /-- The next switch looks for the highest level again. -/
  changePending : Bool
  idle : TaskId
deriving DecidableEq, Repr

namespace Scheduler

def target : String := "kernel_task::manager"

def task? (s : Scheduler) (id : TaskId) : Option Task :=
  if id = 0 then none else s.tasks[id - 1]?

/-- Change task `id`, if there is one. -/
def modify (s : Scheduler) (id : TaskId) (g : Task → Task) : Scheduler :=
  if id = 0 then s else { s with tasks := s.tasks.modify (id - 1) g }

def queue (s : Scheduler) (l : Priority) : List TaskId := s.queues[l]

def setQueue (s : Scheduler) (l : Priority) (q : List TaskId) : Scheduler :=
  { s with queues := s.queues.set l q }

/-- Put `id` at the tail of the queue at `l`. -/
def enqueue (s : Scheduler) (id : TaskId) (l : Priority) : Scheduler :=
  s.setQueue l (s.queue l ++ [id])

/-- Take `id` out of the queue at `l`. -/
def remove (s : Scheduler) (id : TaskId) (l : Priority) : Scheduler :=
  s.setQueue l ((s.queue l).filter (· != id))

/-- The executing task. -/
def executing (s : Scheduler) : TaskId := (s.queue s.level).head?.getD s.idle

/-- Whether `id` is the head of the queue at the current level. -/
def isHead (s : Scheduler) (id : TaskId) : Bool := (s.queue s.level).head? == some id

/-- The highest level with a runnable task. -/
def highest? (s : Scheduler) : Option Priority :=
  (List.finRange 8).reverse.find? fun l => !(s.queue l).isEmpty

/-! ## Tasks come in -/

/-- A new sleeping task. It has no stack before it is primed. -/
def create (s : Scheduler) : Logged (TaskId × Scheduler) := do
  let id := s.tasks.size + 1
  Logged.note .trace target s!"created task {taskName id}"
  pure (id, { s with tasks := s.tasks.push .fresh })

/-- Start task `id` with the code at `entry` on a stack of its own once it runs. -/
def prime (s : Scheduler) (id : TaskId) (entry : UInt64) (arg : Int64) (cr3 : UInt64)
    (areas : Stacks) : Except TaskError Unit × Scheduler :=
  match s.task? id with
  | none => (.error (.noSuchTask id), s)
  | some _ => (.ok (), s.modify id fun t => t.prime id entry arg cr3 (areas id))

/-- Make a task that is not queued runnable at `l`. -/
def start (s : Scheduler) (id : TaskId) (l : Priority) : Scheduler :=
  (s.modify id fun t => { t with level := l, running := true }).enqueue id l

/-- The code that runs already is taken over as the first task, at the top level, and the idle
task is made at the bottom; both are runnable. -/
def new (idleEntry : UInt64) (cr3 : UInt64) (areas : Stacks := .inOrder) : Logged Scheduler := do
  let s : Scheduler := ⟨#[], Vector.replicate 8 [], Fin.ofNat 8 maxLevel, false, 0⟩
  let (main, s) ← s.create
  let s := (s.modify main fun t => { t with hasContext := true }).start main (Fin.ofNat 8 maxLevel)
  let (idle, s) ← s.create
  let s := s.modify idle fun t => t.prime idle idleEntry 0 cr3 (areas idle)
  let s := s.start idle (Fin.ofNat 8 idleLevel)
  Logged.note .debug target s!"task manager ready: main {taskName main}, idle {taskName idle}"
  pure { s with idle := idle }

/-! ## Switching -/

/-- Take the head off the current queue, put it back at the tail unless it goes to sleep, and look
for the highest level if that is due. Answers the former head. -/
def rotate (s : Scheduler) (sleeps : Bool) : TaskId × Scheduler :=
  let former := s.executing
  let rest := (s.queue s.level).tail
  let rest := if sleeps then rest else rest ++ [former]
  let s := s.setQueue s.level rest
  if s.changePending || rest.isEmpty then
    (former, { s with changePending := false, level := s.highest?.getD s.level })
  else (former, s)

/-- The switch away from `former` if another task executes now. -/
def plan (s : Scheduler) (former : TaskId) : Logged (Option Switch) :=
  let next := s.executing
  if next = former then pure none
  else
    match s.task? former, s.task? next with
    | some _, some _ => do
      Logged.note .trace target s!"switch {taskName former} -> {taskName next}"
      pure (some ⟨former, next⟩)
    | _, _ => pure none

/-- Move the turn on from the executing task. -/
def yield (s : Scheduler) (sleeps : Bool) : Logged (Option Switch × Scheduler) := do
  let (former, s) := s.rotate sleeps
  let w ← s.plan former
  pure (w, s)

/-- The executing task has had its turn; `saved` is what was captured of its registers. -/
def preempt (s : Scheduler) (saved : Context) : Logged (Option Switch × Scheduler) :=
  (s.modify s.executing fun t => { t with context := saved }).yield false

/-- Stop running `id`. The idle task cannot sleep. -/
def sleep (s : Scheduler) (id : TaskId) :
    Logged (Except TaskError (Option Switch) × Scheduler) :=
  match s.task? id with
  | none => pure (.error (.noSuchTask id), s)
  | some t =>
    if !t.running then pure (.ok none, s)
    else if id = s.idle then do
      Logged.note .warn target "refusing to put the idle task to sleep"
      pure (.ok none, s)
    else
      let s := s.modify id fun t => { t with running := false }
      if s.isHead id then do
        let (w, s) ← s.yield true
        pure (.ok w, s)
      else pure (.ok none, s.remove id t.level)

/-! ## Levels -/

/-- Move the runnable task `id` to level `l`. The executing task keeps its turn. -/
def relevel (s : Scheduler) (id : TaskId) (t : Task) (l : Priority) : Logged Scheduler :=
  if l = t.level then pure s
  else
    let s := s.modify id fun t => { t with level := l }
    if !s.isHead id then
      let s := (s.remove id t.level).enqueue id l
      pure { s with changePending := s.changePending || s.level < l }
    else do
      let pending := s.changePending || l < s.level
      let s := s.setQueue s.level (s.queue s.level).tail
      let s := s.setQueue l (id :: s.queue l)
      Logged.note .debug target s!"{taskName id} moved itself from level {t.level} to {l}"
      pure { s with changePending := pending, level := l }

/-- Make `id` runnable, at `l` or else at the level it had; a runnable task only moves to `l`. -/
def wakeAt (s : Scheduler) (id : TaskId) (l : Option Priority) :
    Logged (Except TaskError Unit × Scheduler) :=
  match s.task? id with
  | none => pure (.error (.noSuchTask id), s)
  | some t =>
    if t.running then
      match l with
      | none => pure (.ok (), s)
      | some l => do
        let s ← s.relevel id t l
        pure (.ok (), s)
    else if !t.hasContext then pure (.error (.notInitialized id), s)
    else do
      let l := l.getD t.level
      let s := s.start id l
      Logged.note .trace target s!"woke {taskName id} at level {l}"
      pure (.ok (), { s with changePending := s.changePending || s.level < l })

/-- Wake `id`, at `level` if one is given. A level that does not exist is refused before the task
is looked at. -/
def wakeup (s : Scheduler) (id : TaskId) (level : Option Nat) :
    Logged (Except TaskError Unit × Scheduler) :=
  match level with
  | none => s.wakeAt id none
  | some l =>
    if h : l < 8 then s.wakeAt id (some ⟨l, h⟩) else pure (.error (.invalidLevel l), s)

/-! ## Mailboxes and windows -/

/-- Put `message` into the mailbox of `id` and wake it. A task with nothing to resume keeps the
message and sleeps on. -/
def send (s : Scheduler) (id : TaskId) (message : Message) :
    Logged (Except TaskError Unit × Scheduler) :=
  match s.task? id with
  | none => pure (.error (.noSuchTask id), s)
  | some t =>
    let s := s.modify id fun t => { t with mailbox := t.mailbox ++ [message] }
    if t.hasContext then s.wakeup id none
    else do
      Logged.note .warn target
        s!"{taskName id} has no context yet, message queued without waking it"
      pure (.ok (), s)

/-- Take the oldest message of `id`, if there is one. -/
def receive (s : Scheduler) (id : TaskId) : Except TaskError (Option Message) × Scheduler :=
  match s.task? id with
  | none => (.error (.noSuchTask id), s)
  | some t =>
    (.ok t.mailbox.head?, s.modify id fun t => { t with mailbox := t.mailbox.tail })

/-- Let `id` page in the addresses of `window`. -/
def setWindow (s : Scheduler) (id : TaskId) (window : Span) :
    Except TaskError Unit × Scheduler :=
  match s.task? id with
  | none => (.error (.noSuchTask id), s)
  | some _ => (.ok (), s.modify id fun t => { t with window := window })

end Scheduler

end Nucleus
