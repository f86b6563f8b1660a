import Nucleus.Core.Machine

/-!
# Operations of the core

Operations for task code mask interrupts for as long as they hold a lock. Locks are taken timers
first, then tasks, then frames, and none is held while control is given away.

The parameter `away` is what happens on the machine from the moment control leaves the caller
until it comes back.
-/

namespace Nucleus.Core

/-- Give control away, and come back. -/
def switchTo (away : CoreM Unit) (w : Switch) : CoreM Unit := do
  emit (.switchContext w)
  away

def create : CoreM TaskId := masked (withTasks Scheduler.create)

/-- Prime a task to run in the tree that is active now. -/
def prime (id : TaskId) (entry : UInt64) (arg : Int64) (areas : Stacks) :
    CoreM (Except TaskError Unit) := do
  let cr3 := UInt64.ofNat (← get).cr3
  masked <| withTasks fun s => pure (s.prime id entry arg cr3 areas)

/-- Create, prime and wake a task. With a level that does not exist it stays asleep. -/
def spawn (entry : UInt64) (arg : Int64) (level : Option Nat) (areas : Stacks) :
    CoreM (Except TaskError TaskId) := do
  let cr3 := UInt64.ofNat (← get).cr3
  masked <| withTasks fun s => do
    let (id, s) ← s.create
    match s.prime id entry arg cr3 areas with
    | (.error e, s) => pure (.error e, s)
    | (.ok (), s) =>
      match ← s.wakeup id level with
      | (.error e, s) => pure (.error e, s)
      | (.ok (), s) => pure (.ok id, s)

def wakeup (id : TaskId) (level : Option Nat) : CoreM (Except TaskError Unit) :=
  masked <| withTasks fun s => s.wakeup id level

/-- Put a task to sleep. If it is the calling one, this comes back once it has been woken. -/
def sleep (away : CoreM Unit) (id : TaskId) : CoreM (Except TaskError Unit) :=
  masked do
    match ← withTasks fun s => s.sleep id with
    | .error e => pure (.error e)
    | .ok none => pure (.ok ())
    | .ok (some w) => do
      switchTo away w
      pure (.ok ())

def send (id : TaskId) (message : Message) : CoreM (Except TaskError Unit) :=
  masked <| withTasks fun s => s.send id message

def receive (id : TaskId) : CoreM (Except TaskError (Option Message)) :=
  masked <| withTasks fun s => pure (s.receive id)

/-- What one attempt to receive comes to. -/
inductive Attempt where
  | refused (e : TaskError)
  | received (m : Message)
  /-- No message, and the task cannot be suspended. -/
  | stuck
  /-- No message, and the task was put to sleep. -/
  | suspended (w : Switch)

/-- Take the oldest message, or go to sleep if there is none. -/
def attempt (id : TaskId) (s : Scheduler) : Logged (Attempt × Scheduler) := do
  match s.receive id with
  | (.error e, s) => pure (.refused e, s)
  | (.ok (some m), s) => pure (.received m, s)
  | (.ok none, s) =>
    match ← s.sleep id with
    | (.error e, s) => pure (.refused e, s)
    | (.ok none, s) => pure (.stuck, s)
    | (.ok (some w), s) => pure (.suspended w, s)

/-- Take the next message of the calling task, sleeping while its mailbox is empty. The look and
the sleep happen under one mask, so no message can come in between. `rounds` bounds how often the
task goes to sleep. -/
def receiveOrSleep (away : CoreM Unit) (id : TaskId) :
    (rounds : Nat) → CoreM (Except TaskError (Option Message))
  | 0 => pure (.ok none)
  | rounds + 1 => do
    let answer ← masked do
      match ← withTasks (attempt id) with
      | .refused e => pure (some (.error e))
      | .received m => pure (some (.ok (some m)))
      | .stuck => pure (some (.ok none))
      | .suspended w => do
        switchTo away w
        pure none
    match answer with
    | some a => pure a
    | none => receiveOrSleep away id rounds

/-- Arm a timer that expires `ticks` from now. -/
def addTimer (ticks : Nat) (value : Int) (owner : TaskId) : CoreM Unit :=
  masked <| withTimers fun ts => do
    let timeout ← check (Word.add? ts.now ticks)
    pure ((), ts.add (.user timeout value owner))

def setWindow (id : TaskId) (window : Span) : CoreM (Except TaskError Unit) :=
  masked <| withTasks fun s => pure (s.setWindow id window)

/-! ## Interrupts

The handlers expect interrupts to be masked already. -/

/-- One tick of the timers, under both locks: whether a task switch is due. -/
def tick : CoreM Bool :=
  withTimers fun ts => do
    noteContention (← get).tasks.held .tasks
    modify fun c => { c with tasks := c.tasks.lock }
    let (due, ts, s) ← StateT.lift (ts.tick (← get).tasks.value)
    modify fun c => { c with tasks := { c.tasks with value := s } }
    modify fun c => { c with tasks := c.tasks.unlock }
    pure (due, ts)

/-- The timer interrupted a task; `saved` is what was captured of its registers. If another task
is due, control goes there for good. -/
def timerInterrupt (saved : Context) : CoreM Unit := do
  let due ← tick
  emit .endOfInterrupt
  if due then
    match ← withTasks fun s => s.preempt saved with
    | none => pure ()
    | some w => emit (.restoreContext w.load)
  else pure ()

/-- The addresses that the executing task may page in. -/
def executingWindow (s : Scheduler) : Span :=
  match s.task? s.executing with
  | some t => t.window
  | none => ⟨0, 0⟩

/-- A page fault of the executing task. -/
def pageFault (code address : Nat) : CoreM (Except PagingError Unit) := do
  let code := FaultCode.ofNat code
  let window ← withTasks fun s => pure (executingWindow s, s)
  let root := (← get).root
  withFrames fun s => do
    match ← s.handleFault root code address window with
    | (.ok (), s) => pure (.ok (), s)
    | (.error e, s) =>
      let place := s!"{Word.hex address} ({code.explain})"
      Logged.note .warn target s!"unresolved page fault at {place}: {e.message}"
      pure (.error e, s)

/-- What the idle task does all the time. -/
def idle : CoreM Unit := emit .halt

/-! ## Trap entries

They find the core through one global place, which is empty before `install`. -/

def trapTarget : String := "kernel_core::arch::interrupts"

def install : CoreM Unit := modify fun c => { c with installed := true }

/-- The timer's trap. With no core only the end of the interrupt is signalled. -/
def timerTrap (saved : Context) : CoreM Unit := do
  if (← get).installed then timerInterrupt saved else emit .bareEndOfInterrupt

/-- Tell of a fault that nothing resolves. -/
def reportFault (code address : Nat) (reason : String) : CoreM Unit :=
  let place := s!"#PF at {Word.hex address} (err {Word.hex code})"
  lift (Logged.note .error trapTarget (place ++ reason))

/-- The trap of a page fault: whether the faulting code goes on. Otherwise the processor stops. -/
def faultTrap (code address : Nat) : CoreM Bool := do
  if (← get).installed then
    match ← pageFault code address with
    | .ok () => pure true
    | .error e => do
      reportFault code address s!": {e.message}"
      pure false
  else do
    reportFault code address " before kernel init"
    pure false

end Nucleus.Core
