import Nucleus.Lock.Interrupts

/-!
# Spin locks

A lock bit around a value. Every guard that is dropped opens the lock. An attempt makes its guard
before it knows whether the bit was free, and a failed attempt drops that guard at once; so it
leaves the lock open, also for the holder that it failed because of.

* `tryLock`: one attempt. `tryLock_of_held`: after a failed one the lock is open.
* `lock`: attempts until one succeeds. The second always does.
-/

namespace Nucleus

structure SpinLock (α : Type u) where
  held : Bool
  value : α
deriving DecidableEq, Repr

namespace SpinLock

def new (a : α) : SpinLock α := ⟨false, a⟩

/-- Drop a guard. -/
def unlock (l : SpinLock α) : SpinLock α := { l with held := false }

/-- One attempt: whether a guard was got. -/
def tryLock (l : SpinLock α) : Bool × SpinLock α :=
  if l.held then (false, l.unlock) else (true, { l with held := true })

/-- Attempts until one succeeds. -/
def lock (l : SpinLock α) : SpinLock α :=
  match l.tryLock with
  | (true, l) => l
  | (false, l) => l.tryLock.2

theorem held_lock (l : SpinLock α) : l.lock.held = true := by
  obtain ⟨b, a⟩ := l
  cases b <;> rfl

theorem value_lock (l : SpinLock α) : l.lock.value = l.value := by
  obtain ⟨b, a⟩ := l
  cases b <;> rfl

theorem tryLock_of_held {l : SpinLock α} (h : l.held = true) : l.tryLock = (false, l.unlock) := by
  simp [tryLock, h]

theorem tryLock_of_open {l : SpinLock α} (h : l.held = false) :
    l.tryLock = (true, { l with held := true }) := by
  simp [tryLock, h]

end SpinLock

end Nucleus
