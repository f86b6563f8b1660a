import Nucleus.Lock.Spin

/-!
# Guards

One lock and one interrupt flag, and the guards that are alive on them: what a single thread of
control can do to them, one step at a time. Guards are kept in the order they were made, and a
place whose guard was dropped stays empty.

* `Step` and `Guards.step`: the operations.
* `Guards.finish`: every guard that is left is dropped, the oldest first.
-/

namespace Nucleus

inductive Guard where
  | lock
  /-- A guard of the lock that also masks interrupts. -/
  | maskedLock (m : Mask)
  | mask (m : Mask)
deriving DecidableEq, Repr

/-- Whether a guard gives access to the locked value. -/
def Guard.opensLock : Guard → Bool
  | .lock | .maskedLock _ => true
  | .mask _ => false

structure Guards (α : Type) where
  lock : SpinLock α
  interrupts : Interrupts
  places : Array (Option Guard)
deriving Repr

namespace Guards

inductive Step (α : Type) where
  | tryLock
  | lock
  /-- Mask interrupts, then lock. -/
  | lockMasked
  | mask
  | drop (place : Nat)
  | get (place : Nat)
  | set (place : Nat) (a : α)
  /-- Lock with interrupts masked, store a value, and give both back. -/
  | withLock (a : α)
  /-- The same, left by a panic. Guards are dropped on that way too. -/
  | withLockPanic (a : α)
  /-- Run with interrupts masked. -/
  | without
  | withoutPanic
  | enable
  | disable
deriving Repr

inductive Answer (α : Type) where
  | done
  | place (n : Option Nat)
  | masked (place : Nat) (restores : Bool)
  | flag (b : Bool)
  | value (a : Option α)
  /-- The value before, and whether interrupts were let in meanwhile. -/
  | exchanged (old : α) (enabled : Bool)
deriving Repr

variable {α : Type}

/-- All free, interrupts let in. -/
def new (a : α) : Guards α := ⟨.new a, ⟨true⟩, #[]⟩

def guard? (g : Guards α) (n : Nat) : Option Guard := g.places[n]?.join

/-- Keep a new guard. -/
def keep (g : Guards α) (x : Guard) : Guards α := { g with places := g.places.push (some x) }

/-- What dropping a guard does: the lock is opened before interrupts are let in. -/
def release (g : Guards α) : Guard → Guards α
  | .lock => { g with lock := g.lock.unlock }
  | .maskedLock m => { g with lock := g.lock.unlock, interrupts := g.interrupts.unmask m }
  | .mask m => { g with interrupts := g.interrupts.unmask m }

/-- Drop the guard at a place. -/
def drop (g : Guards α) (n : Nat) : Guards α :=
  match g.guard? n with
  | none => g
  | some x => { g with places := g.places.setIfInBounds n none }.release x

/-- Make a guard of the lock with interrupts masked. -/
def takeMasked (g : Guards α) : Guard × Guards α :=
  let (m, i) := g.interrupts.mask
  (.maskedLock m, { g with interrupts := i, lock := g.lock.lock })

/-- Store `a` under a guard of its own: the old value, and whether interrupts were let in. -/
def exchange (g : Guards α) (a : α) : α × Bool × Guards α :=
  let (x, g) := g.takeMasked
  let old := g.lock.value
  let enabled := g.interrupts.enabled
  (old, enabled, { g with lock := { g.lock with value := a } }.release x)

/-- Look at the flag under a mask of its own. -/
def lookMasked (g : Guards α) : Bool × Guards α :=
  let (m, i) := g.interrupts.mask
  (i.enabled, { g with interrupts := i }.release (.mask m))

def step (g : Guards α) : Step α → Answer α × Guards α
  | .tryLock =>
    match g.lock.tryLock with
    | (true, l) => (.place (some g.places.size), { g with lock := l }.keep .lock)
    | (false, l) => (.place none, { g with lock := l })
  | .lock => (.place (some g.places.size), { g with lock := g.lock.lock }.keep .lock)
  | .lockMasked =>
    let (x, g) := g.takeMasked
    (.place (some g.places.size), g.keep x)
  | .mask =>
    let (m, i) := g.interrupts.mask
    (.masked g.places.size m.restores, { g with interrupts := i }.keep (.mask m))
  | .drop n => (.flag (g.guard? n).isSome, g.drop n)
  | .get n =>
    match g.guard? n with
    | some x => (.value (if x.opensLock then some g.lock.value else none), g)
    | none => (.value none, g)
  | .set n a =>
    match g.guard? n with
    | some x =>
      if x.opensLock then (.flag true, { g with lock := { g.lock with value := a } })
      else (.flag false, g)
    | none => (.flag false, g)
  | .withLock a =>
    let (old, enabled, g) := g.exchange a
    (.exchanged old enabled, g)
  | .withLockPanic a =>
    let (_, _, g) := g.exchange a
    (.flag true, g)
  | .without =>
    let (enabled, g) := g.lookMasked
    (.flag enabled, g)
  | .withoutPanic =>
    let (_, g) := g.lookMasked
    (.flag true, g)
  | .enable => (.done, { g with interrupts := g.interrupts.enable })
  | .disable => (.done, { g with interrupts := g.interrupts.disable })

/-- Drop every guard that is left, in the order they were made. -/
def finish (g : Guards α) : Guards α := (List.range g.places.size).foldl drop g

end Guards

end Nucleus
