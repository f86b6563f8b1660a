import Nucleus.Task.Scheduler

/-!
# Runs of the scheduler

The operations of the scheduler as data, so that statements can range over every run.

* `Scheduler.perform`: one operation.
* `Scheduler.Reachable`: what a scheduler can come to, from its start on.
-/

namespace Nucleus.Scheduler

inductive Operation where
  | create
  | prime (id : TaskId) (entry : UInt64) (arg : Int64) (cr3 : UInt64)
    (areas : Stacks := .inOrder)
  | wakeup (id : TaskId) (level : Option Nat)
  | sleep (id : TaskId)
  | send (id : TaskId) (message : Message)
  | receive (id : TaskId)
  | setWindow (id : TaskId) (window : Span)
  | preempt (saved : Context)

inductive Reply where
  | done
  | id (t : TaskId)
  | switch (w : Option Switch)
  | message (m : Option Message)
  | error (e : TaskError)
deriving DecidableEq, Repr

def Reply.ofExcept (ok : α → Reply) : Except TaskError α → Reply
  | .ok a => ok a
  | .error e => .error e

def perform (s : Scheduler) : Operation → Logged (Reply × Scheduler)
  | .create => do
    let (id, s) ← s.create
    pure (.id id, s)
  | .prime id entry arg cr3 areas =>
    let (r, s) := s.prime id entry arg cr3 areas
    pure (.ofExcept (fun _ => .done) r, s)
  | .wakeup id level => do
    let (r, s) ← s.wakeup id level
    pure (.ofExcept (fun _ => .done) r, s)
  | .sleep id => do
    let (r, s) ← s.sleep id
    pure (.ofExcept .switch r, s)
  | .send id m => do
    let (r, s) ← s.send id m
    pure (.ofExcept (fun _ => .done) r, s)
  | .receive id =>
    let (r, s) := s.receive id
    pure (.ofExcept .message r, s)
  | .setWindow id w =>
    let (r, s) := s.setWindow id w
    pure (.ofExcept (fun _ => .done) r, s)
  | .preempt saved => do
    let (w, s) ← s.preempt saved
    pure (.switch w, s)

inductive Reachable : Scheduler → Prop where
  | start (idleEntry cr3 : UInt64) (areas : Stacks) : Reachable (new idleEntry cr3 areas).value
  | next {s : Scheduler} (op : Operation) : Reachable s → Reachable (s.perform op).value.2

end Nucleus.Scheduler
