/-!
# Write-once cells

A cell that takes one value. `getOrInit` runs its initialiser before it writes, so the initialiser
may find the cell empty, fill it itself, and lose to what it wrote.

* `set_of_full`, `set_of_empty`: the first write wins and every later one is handed back.
* `getOrInit` answers with what the cell holds afterwards, whoever wrote it.
-/

namespace Nucleus

structure OnceCell (α : Type) where
  value : Option α
  /-- How many values handed to the cell were let go of. -/
  dropped : Nat
deriving DecidableEq, Repr

namespace OnceCell
variable {α : Type}

def empty : OnceCell α := ⟨none, 0⟩

def get (c : OnceCell α) : Option α := c.value

/-- Store `a` unless the cell holds a value; then `a` is handed back. -/
def set (c : OnceCell α) (a : α) : Except α Unit × OnceCell α :=
  match c.value with
  | none => (.ok (), { c with value := some a })
  | some _ => (.error a, c)

/-- Let go of a value that was handed back. -/
def discard (c : OnceCell α) : OnceCell α := { c with dropped := c.dropped + 1 }

/-- Store `a`, or let go of it. -/
def offer (c : OnceCell α) (a : α) : OnceCell α :=
  match c.set a with
  | (.ok (), c) => c
  | (.error _, c) => c.discard

/-- The value of the cell, after `init` was offered to an empty one. `init` may use the cell, and
may fail to come back with a value; then there is no answer. -/
def getOrInit (c : OnceCell α) (init : OnceCell α → Option α × OnceCell α) :
    Option α × OnceCell α :=
  match c.value with
  | some a => (some a, c)
  | none =>
    match init c with
    | (none, c) => (none, c)
    | (some a, c) =>
      let c := c.offer a
      (c.value, c)

/-- The number of values let go of once the cell itself is gone. -/
def finalDrops (c : OnceCell α) : Nat := c.dropped + if c.value.isSome then 1 else 0

theorem set_of_empty {c : OnceCell α} (h : c.value = none) (a : α) :
    c.set a = (.ok (), { c with value := some a }) := by
  simp [set, h]

theorem set_of_full {c : OnceCell α} {b : α} (h : c.value = some b) (a : α) :
    c.set a = (.error a, c) := by
  simp [set, h]

end OnceCell

end Nucleus
