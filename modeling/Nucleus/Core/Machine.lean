import Nucleus.Lock.Spin
import Nucleus.Paging.PageFault
import Nucleus.Task.Timers

/-!
# The core and its processor

The scheduler, the timers and the frame allocator, each behind its lock, with the one processor
they run on.

* `Act`: what the core can be asked for, and what can be done to the machine around it.
* `Answer`: what comes back. `Event`: what the processor was made to do on the way.
* `Core.masked`, `Core.withTasks`, `Core.withTimers`, `Core.withFrames`: run with interrupts
  masked, or under a lock.
-/

namespace Nucleus
open Platform

/-- Operations of the core, and the entries that the hardware calls. -/
inductive Call where
  | create
  | prime (id : TaskId) (entry : UInt64) (arg : Int64) (areas : Stacks := .inOrder)
  | spawn (entry : UInt64) (arg : Int64) (level : Option Nat) (areas : Stacks := .inOrder)
  | wakeup (id : TaskId) (level : Option Nat)
  | sleep (id : TaskId)
  | send (id : TaskId) (message : Message)
  | receive (id : TaskId)
  | receiveOrSleep (id : TaskId)
  | addTimer (ticks : Nat) (value : Int) (owner : TaskId)
  | setWindow (id : TaskId) (window : Span)
  | timerInterrupt (saved : Context)
  | pageFault (code address : Nat)
  | idle
  /-- Make this the core that the trap entries find. -/
  | install
  | timerTrap (saved : Context)
  | faultTrap (code address : Nat)

/-- What can happen to the machine: a call of the core, a look at it, or a change around it. -/
inductive Act where
  | call (c : Call)
  | task (id : TaskId)
  /-- Translate an address in the active tree. -/
  | translate (address : Nat)
  | loadCr3 (value : Nat)
  /-- A new tree that shares the lower half of the active one. -/
  | newUserTree
  | poke (frame : Nat) (index : Fin 512) (e : Entry)
  | allocate (n : Nat)
  | release (start n : Nat)

inductive Answer where
  | done
  | id (t : TaskId)
  | message (m : Option Message)
  | task (id : TaskId) (t : Task)
  | address (a : Option Nat)
  | frame (f : Nat)
  /-- The processor was stopped for good. -/
  | halted
  | taskError (e : TaskError)
  | pagingError (e : PagingError)
  | allocError (e : AllocError)

def Answer.isHalted : Answer → Bool
  | .halted => true
  | _ => false

inductive LockName where
  | timers | tasks | frames
deriving DecidableEq, Repr

/-- What holds on the machine at an instant. -/
structure Moment where
  interrupts : Bool
  held : List LockName
deriving DecidableEq, Repr

/-- What the processor was made to do, and the ends of acts done while a caller was away. -/
inductive Event where
  | switchContext (w : Switch) (m : Moment)
  | restoreContext (id : TaskId) (m : Moment)
  | endOfInterrupt (m : Moment)
  /-- The same, with no core to be asked. -/
  | bareEndOfInterrupt (m : Moment)
  | halt (m : Moment)
  /-- A lock was asked for while it was held. -/
  | contended (l : LockName)
  | ran (a : Answer)

structure Core where
  cr3 : Nat
  interrupts : Interrupts
  memory : Memory
  frames : SpinLock Frames
  tasks : SpinLock Scheduler
  timers : SpinLock Timers
  /-- Whether the trap entries find this core. -/
  installed : Bool
  /-- What happens while a caller is switched away: each switch takes the first list. -/
  scripts : List (List Act)
  /-- Oldest first. -/
  events : List Event

/-- A computation on the core. -/
abbrev CoreM := StateT Core Checked

namespace Core

def target : String := "kernel_core::kernel"

/-- A core on a processor whose active tree `cr3` names. The code that runs is the main task; the
preemption timer is armed for it. -/
def new (cr3 : Nat) (memory : Memory) (frames : Frames) (idleEntry : UInt64)
    (scripts : List (List Act)) (areas : Stacks := .inOrder) : Logged Core := do
  let tasks ← Scheduler.new idleEntry (UInt64.ofNat cr3) areas
  let main := tasks.executing
  let names := s!"main {taskName main}, idle {taskName tasks.idle}"
  Logged.note .info target s!"kernel core up: {names}, cr3 {Word.hex cr3}"
  pure
    { cr3, memory, scripts
      interrupts := ⟨true⟩
      frames := .new frames
      tasks := .new tasks
      timers := .new (.new main)
      installed := false
      events := [] }

/-- The frame of the active tree's root. The low bits of `cr3` are no part of the address. -/
def root (c : Core) : Nat := c.cr3 / frameBytes

def held (c : Core) : List LockName :=
  (if c.timers.held then [.timers] else []) ++ (if c.tasks.held then [.tasks] else []) ++
    (if c.frames.held then [.frames] else [])

def moment (c : Core) : Moment := ⟨c.interrupts.enabled, c.held⟩

def emit (e : Moment → Event) : CoreM Unit :=
  modify fun c => { c with events := c.events ++ [e c.moment] }

def lift (x : Logged α) : CoreM α := StateT.lift (Checked.ofLogged x)

def check (r : Except Panic α) : CoreM α := StateT.lift (Checked.check r)

/-! ## Masks and locks -/

/-- Run with interrupts masked. -/
def masked (body : CoreM α) : CoreM α := do
  let (m, i) := (← get).interrupts.mask
  modify fun c => { c with interrupts := i }
  let a ← body
  modify fun c => { c with interrupts := c.interrupts.unmask m }
  pure a

def noteContention (held : Bool) (l : LockName) : CoreM Unit :=
  if held then emit fun _ => .contended l else pure ()

/-- Run under the lock of the scheduler. -/
def withTasks (f : Scheduler → Logged (α × Scheduler)) : CoreM α := do
  noteContention (← get).tasks.held .tasks
  modify fun c => { c with tasks := c.tasks.lock }
  let (a, s) ← lift (f (← get).tasks.value)
  modify fun c => { c with tasks := { c.tasks with value := s } }
  modify fun c => { c with tasks := c.tasks.unlock }
  pure a

/-- Run under the lock of the timers. -/
def withTimers (f : Timers → CoreM (α × Timers)) : CoreM α := do
  noteContention (← get).timers.held .timers
  modify fun c => { c with timers := c.timers.lock }
  let (a, ts) ← f (← get).timers.value
  modify fun c => { c with timers := { c.timers with value := ts } }
  modify fun c => { c with timers := c.timers.unlock }
  pure a

/-- Run under the lock of the frame allocator, with physical memory at hand. -/
def withFrames (f : Store → Logged (α × Store)) : CoreM α := do
  noteContention (← get).frames.held .frames
  modify fun c => { c with frames := c.frames.lock }
  let c ← get
  let (a, s) ← lift (f ⟨c.frames.value, c.memory⟩)
  modify fun c => { c with frames := { c.frames with value := s.frames }, memory := s.memory }
  modify fun c => { c with frames := c.frames.unlock }
  pure a

end Core

end Nucleus
