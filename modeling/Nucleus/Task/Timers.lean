import Nucleus.Task.Scheduler

/-!
# Timers

Software timers count timer interrupts. A timer expires once, into a message for its owner; only
the preemption timer is different: it arms itself again and tells that a task switch is due.

* `Timer.before`: the order in which timers expire.
* `Timers.pending` is kept in that order, so the due timers are its first ones.
* `Timers.tick`: one interrupt.
-/

namespace Nucleus
open Platform

structure Timer where
  /-- The tick at which the timer expires. -/
  timeout : Nat
  value : Int
  owner : TaskId
  preemption : Bool
deriving DecidableEq, Repr

namespace Timer

/-- A timer that sends `value` to `owner`. -/
def user (timeout : Nat) (value : Int) (owner : TaskId) : Timer := ⟨timeout, value, owner, false⟩

def preempting (timeout : Nat) (owner : TaskId) : Timer := ⟨timeout, preemptionValue, owner, true⟩

/-- Timers are ordered by timeout, then value, then owner; the preemption timer comes last among
equals. -/
def compare (a b : Timer) : Ordering :=
  (Ord.compare a.timeout b.timeout).then <|
    (Ord.compare a.value b.value).then <|
      (Ord.compare a.owner b.owner).then (Ord.compare a.preemption b.preemption)

def before (a b : Timer) : Bool := a.compare b = .lt

/-- The message an expired timer sends. -/
def message (t : Timer) : Message := .timerTimeout t.timeout t.value

/-- Insert into a list in the order of expiry. -/
def insert (t : Timer) : List Timer → List Timer
  | [] => [t]
  | u :: us => if u.before t then u :: insert t us else t :: u :: us

end Timer

structure Timers where
  now : Nat
  /-- In the order of expiry. -/
  pending : List Timer
deriving DecidableEq, Repr

namespace Timers

def target : String := "kernel_task::timer"

/-- At tick 0, with the preemption timer armed for `owner`. -/
def new (owner : TaskId) : Timers := ⟨0, [.preempting preemptionPeriod owner]⟩

def add (ts : Timers) (t : Timer) : Timers := { ts with pending := t.insert ts.pending }

/-- The pending timers that are due at `now`. -/
def due (ts : Timers) : List Timer := ts.pending.takeWhile fun t => t.timeout ≤ ts.now

def later (ts : Timers) : List Timer := ts.pending.dropWhile fun t => t.timeout ≤ ts.now

/-- Deliver an expired timer to its owner. Nobody else learns of one whose owner does not exist. -/
def deliver (s : Scheduler) (t : Timer) : Logged Scheduler := do
  match ← s.send t.owner t.message with
  | (.ok (), s) => pure s
  | (.error e, s) =>
    Logged.note .warn target s!"dropping timeout {t.value}: {e.message}"
    pure s

/-- Fire the timers of a list in order: the preemption timer arms itself again, every other one is
delivered. Answers whether the preemption timer was among them. -/
def fire : List Timer → Timers → Scheduler → Checked (Bool × Timers × Scheduler)
  | [], ts, s => pure (false, ts, s)
  | t :: rest, ts, s =>
    if t.preemption then do
      let timeout ← Checked.check (Word.add? ts.now preemptionPeriod)
      let (_, ts, s) ← fire rest (ts.add (.preempting timeout t.owner)) s
      pure (true, ts, s)
    else do
      let s ← Checked.ofLogged (deliver s t)
      fire rest ts s

/-- Go on by one tick and fire every timer that is due. Answers whether a task switch is due. -/
def tick (ts : Timers) (s : Scheduler) : Checked (Bool × Timers × Scheduler) := do
  let now ← Checked.check (Word.add? ts.now 1)
  let ts := { ts with now := now }
  fire ts.due { ts with pending := ts.later } s

/-- `n` ticks in a row: what each answered. -/
def ticks : (n : Nat) → Timers → Scheduler → Checked (List Bool × Timers × Scheduler)
  | 0, ts, s => pure ([], ts, s)
  | n + 1, ts, s => do
    let (due, ts, s) ← ts.tick s
    let (rest, ts, s) ← ticks n ts s
    pure (due :: rest, ts, s)

end Timers

end Nucleus
