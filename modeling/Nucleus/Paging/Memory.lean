import Nucleus.Paging.Entry
import Std.Data.TreeMap

/-!
# Physical memory

Memory as the paging structures see it: every frame is a table of 512 entries. Frames never
written read as `blank`.

* `entry_put`, `entry_clear`, `entry_putTable`: what each way of writing changes.
-/

namespace Nucleus

abbrev Table := Vector Entry 512

namespace Table

def filled (e : Entry) : Table := Vector.replicate 512 e

def zero : Table := filled .zero

def put (t : Table) (i : Fin 512) (e : Entry) : Table := t.setIfInBounds i e

theorem get_filled (e : Entry) (i : Fin 512) : (filled e).get i = e :=
  Vector.getElem_replicate i.isLt

theorem get_put (t : Table) (i j : Fin 512) (e : Entry) :
    (t.put i e).get j = if i = j then e else t.get j := by
  simp only [Fin.ext_iff]
  exact Vector.getElem_setIfInBounds j.isLt

/-- The number of present entries. -/
def presentCount (t : Table) : Nat := t.toList.countP fun e => e.present

/-- The entries that are not all zero, with their indices. -/
def nonzero (t : Table) : List (Nat × Entry) :=
  (t.toList.zipIdx.map fun (e, i) => (i, e)).filter fun x => x.2 != .zero

end Table

structure Memory where
  blank : Table
  tables : Std.TreeMap Nat Table

namespace Memory

/-- Memory whose entries all read `e`. -/
def filled (e : Entry) : Memory := ⟨.filled e, ∅⟩

/-- Cleared memory. -/
def zero : Memory := filled .zero

def table (m : Memory) (f : Nat) : Table := m.tables.getD f m.blank

def entry (m : Memory) (f : Nat) (i : Fin 512) : Entry := (m.table f).get i

def putTable (m : Memory) (f : Nat) (t : Table) : Memory :=
  { m with tables := m.tables.insert f t }

def put (m : Memory) (f : Nat) (i : Fin 512) (e : Entry) : Memory :=
  m.putTable f ((m.table f).put i e)

/-- Change one entry by `g`. -/
def update (m : Memory) (f : Nat) (i : Fin 512) (g : Entry → Entry) : Memory :=
  m.put f i (g (m.entry f i))

/-- Zero every entry of frame `f`. -/
def clear (m : Memory) (f : Nat) : Memory := m.putTable f .zero

/-- Set every entry of the `n` frames from `f` on to `e`. -/
def fill (m : Memory) (e : Entry) (f : Nat) : (n : Nat) → Memory
  | 0 => m
  | n + 1 => (m.putTable f (.filled e)).fill e (f + 1) n

theorem table_putTable (m : Memory) (f g : Nat) (t : Table) :
    (m.putTable f t).table g = if f = g then t else m.table g := by
  simp only [table, putTable, Std.TreeMap.getD_insert, Nat.compare_eq_eq]

theorem entry_filled (e : Entry) (f : Nat) (i : Fin 512) : (filled e).entry f i = e := by
  simp only [entry, table, filled, Std.TreeMap.getD_emptyc, Table.get_filled]

theorem entry_putTable (m : Memory) (f g : Nat) (t : Table) (i : Fin 512) :
    (m.putTable f t).entry g i = if f = g then t.get i else m.entry g i := by
  simp only [entry, table_putTable]
  split <;> rfl

theorem entry_put (m : Memory) (f g : Nat) (i j : Fin 512) (e : Entry) :
    (m.put f i e).entry g j = if f = g ∧ i = j then e else m.entry g j := by
  rw [put, entry_putTable]
  by_cases hf : f = g
  · subst hf
    simp only [if_true, true_and, Table.get_put, entry]
  · simp only [hf, if_false, false_and]

theorem entry_update (m : Memory) (f g : Nat) (i j : Fin 512) (u : Entry → Entry) :
    (m.update f i u).entry g j = if f = g ∧ i = j then u (m.entry g j) else m.entry g j := by
  rw [update, entry_put]
  split
  · next h => rw [h.1, h.2]
  · rfl

theorem entry_clear (m : Memory) (f g : Nat) (i : Fin 512) :
    (m.clear f).entry g i = if f = g then .zero else m.entry g i := by
  rw [clear, entry_putTable, Table.zero, Table.get_filled]

end Memory

end Nucleus
