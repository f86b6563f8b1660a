import Nucleus.Task.Context

/-!
# Tasks

A task is a unit of scheduling: its level, whether it is runnable, the registers to resume it
with, its mailbox and the addresses it may grow into. Of its private stack a task records the size
alone, and the place of the stack is a parameter of what makes one.
-/

namespace Nucleus
open Platform

/-- Tasks are numbered from 1 on, and a number is never used again. -/
abbrev TaskId := Nat

/-- A task's number as the log and error texts show it. -/
def taskName (id : TaskId) : String := s!"#{id}"

/-- A scheduling level. A higher one goes first. -/
abbrev Priority := Fin 8

/-- What a task asks of one of its layers on the screen. -/
inductive LayerOp where
  | move (x y : Int)
  | moveRelative (dx dy : Int)
  | draw
deriving DecidableEq, Repr

/-- What can lie in a mailbox. -/
inductive Message where
  | interruptXhci
  | interruptLapicTimer
  /-- The timer set for `timeout` expired. -/
  | timerTimeout (timeout : Nat) (value : Int)
  | keyPush (modifier keycode ascii : Nat)
  /-- Task `source` asks for an operation on a layer. -/
  | layer (source : TaskId) (op : LayerOp) (layerId : Nat)
  /-- A request of this kind was carried out. -/
  | layerFinish
deriving DecidableEq, Repr

/-- Why an operation on a task was refused. -/
inductive TaskError where
  | noSuchTask (id : TaskId)
  | invalidLevel (level : Nat)
  /-- The task has nothing to resume. -/
  | notInitialized (id : TaskId)
deriving DecidableEq, Repr

def TaskError.kind : TaskError → String
  | .noSuchTask _ => "NoSuchTask"
  | .invalidLevel _ => "InvalidLevel"
  | .notInitialized _ => "NotInitialized"

def TaskError.message : TaskError → String
  | .noSuchTask id => s!"no such task: {taskName id}"
  | .invalidLevel l => s!"invalid priority level {l}"
  | .notInitialized id => s!"task {taskName id} has no context to run"

structure Task where
  level : Priority
  running : Bool
  /-- Whether there is something to resume. -/
  hasContext : Bool
  /-- Bytes of the private stack; none before the task is primed. -/
  stack : Nat
  context : Context
  /-- Oldest message first. -/
  mailbox : List Message
  /-- The addresses that faults of this task may page in. -/
  window : Span
deriving DecidableEq, Repr

/-- The end of the stack of task `id` where the stacks lie in the order of the tasks. -/
def Task.stackEnd (id : TaskId) : Nat := 0x600000000000 + id * stackBytes

/-- A private stack. Where it lies is up to the allocator that it comes from. -/
structure Stack where
  /-- The address behind its last byte. -/
  stop : Nat
  room : stackBytes ≤ stop

/-- Where the stack of each task would lie, were it made now. -/
abbrev Stacks := TaskId → Stack

/-- One after the other: a placement to run with. -/
def Stacks.inOrder : Stacks := fun id => ⟨Task.stackEnd id, Nat.le_add_right_of_le (by decide)⟩

namespace Stack

variable (stack : Stack) (id : TaskId) (entry : UInt64) (arg : Int64) (cr3 : UInt64)

theorem primed_eq : Context.primed entry id arg stack.stop cr3 =
    .ok (.start entry id arg (stack.stop / 16 * 16 - 8) cr3) := by
  have top : Context.stackTop? stack.stop = .ok (stack.stop / 16 * 16 - 8) := by
    have room := stack.room
    rw [Context.stackTop?, Word.sub?_eq_ok]
    simp only [stackBytes] at room
    omega
  rw [Context.primed, top]
  rfl

/-- The image that starts task `id` on this stack, which always has room for it. -/
def image : Context :=
  match made : Context.primed entry id arg stack.stop cr3 with
  | .ok c => c
  | .error _ => nomatch (stack.primed_eq id entry arg cr3).symm.trans made

theorem primed_image :
    Context.primed entry id arg stack.stop cr3 = .ok (stack.image id entry arg cr3) := by
  unfold image
  split
  · assumption
  · next made => cases (stack.primed_eq id entry arg cr3).symm.trans made

end Stack

namespace Task

/-- A sleeping task with an empty mailbox and nothing to resume. -/
def fresh : Task := ⟨Fin.ofNat 8 defaultLevel, false, false, 0, .zero, [], ⟨0, 0⟩⟩

/-- Give the task a stack of its own and the image that starts it there. -/
def prime (t : Task) (id : TaskId) (entry : UInt64) (arg : Int64) (cr3 : UInt64)
    (stack : Stack) : Task :=
  { t with
    stack := stackBytes
    context := stack.image id entry arg cr3
    hasContext := true }

end Task

end Nucleus
