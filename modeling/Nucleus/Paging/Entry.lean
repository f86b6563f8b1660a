import Nucleus.Platform
import Nucleus.Word

/-!
# Table entries

One 64-bit slot of a paging structure at any level: the flags the hardware reads, the number of a
physical frame, and two fields left to software.

* `toNat_ofNat`, `ofNat_toNat`: an entry and its word determine each other.
* `pointer` is the address of the frame that the entry names.
-/

namespace Nucleus
open Platform

structure Entry where
  present : Bool
  writable : Bool
  user : Bool
  writeThrough : Bool
  cacheDisable : Bool
  accessed : Bool
  dirty : Bool
  huge : Bool
  isGlobal : Bool
  low : Fin 8
  frame : Fin 1099511627776
  high : Fin 2048
  noExecute : Bool
deriving DecidableEq, Repr

namespace Entry

/-- The entry of a cleared table. -/
def zero : Entry :=
  ⟨false, false, false, false, false, false, false, false, false, 0, 0, 0, false⟩

def ofNat (n : Nat) : Entry where
  present := n.testBit 0
  writable := n.testBit 1
  user := n.testBit 2
  writeThrough := n.testBit 3
  cacheDisable := n.testBit 4
  accessed := n.testBit 5
  dirty := n.testBit 6
  huge := n.testBit 7
  isGlobal := n.testBit 8
  low := Fin.ofNat 8 (n / 0x200)
  frame := Fin.ofNat 1099511627776 (n / 0x1000)
  high := Fin.ofNat 2048 (n / 0x10000000000000)
  noExecute := n.testBit 63

def toNat (e : Entry) : Nat :=
  e.present.toNat + 2 * e.writable.toNat + 4 * e.user.toNat + 8 * e.writeThrough.toNat +
    16 * e.cacheDisable.toNat + 32 * e.accessed.toNat + 64 * e.dirty.toNat + 128 * e.huge.toNat +
    256 * e.isGlobal.toNat + 0x200 * e.low + 0x1000 * e.frame + 0x10000000000000 * e.high +
    0x8000000000000000 * e.noExecute.toNat

/-- The address of the table or page that the entry names. -/
def pointer (e : Entry) : Nat := e.frame * frameBytes

/-- Name the frame that holds the physical address `a`. -/
def setPointer (e : Entry) (a : Nat) : Entry :=
  { e with frame := Fin.ofNat 1099511627776 (a / frameBytes) }

/-! ## Fields -/

inductive Flag where
  | present | writable | user | writeThrough | cacheDisable
  | accessed | dirty | huge | isGlobal | noExecute
deriving DecidableEq, Repr

namespace Flag

/-- All flags, from the lowest bit up. -/
def all : List Flag :=
  [present, writable, user, writeThrough, cacheDisable, accessed, dirty, huge, isGlobal, noExecute]

def name : Flag → String
  | present => "present"
  | writable => "writable"
  | user => "user"
  | writeThrough => "write_through"
  | cacheDisable => "cache_disable"
  | accessed => "accessed"
  | dirty => "dirty"
  | huge => "huge_page"
  | isGlobal => "global"
  | noExecute => "no_execute"

end Flag

def has (e : Entry) : Flag → Bool
  | .present => e.present
  | .writable => e.writable
  | .user => e.user
  | .writeThrough => e.writeThrough
  | .cacheDisable => e.cacheDisable
  | .accessed => e.accessed
  | .dirty => e.dirty
  | .huge => e.huge
  | .isGlobal => e.isGlobal
  | .noExecute => e.noExecute

def set (e : Entry) (f : Flag) (v : Bool) : Entry :=
  match f with
  | .present => { e with present := v }
  | .writable => { e with writable := v }
  | .user => { e with user := v }
  | .writeThrough => { e with writeThrough := v }
  | .cacheDisable => { e with cacheDisable := v }
  | .accessed => { e with accessed := v }
  | .dirty => { e with dirty := v }
  | .huge => { e with huge := v }
  | .isGlobal => { e with isGlobal := v }
  | .noExecute => { e with noExecute := v }

/-- The flags that are set, from the lowest bit up. -/
def flags (e : Entry) : List Flag := Flag.all.filter e.has

/-- Store `v` in the lower software field, unless it is too wide. -/
def setLow? (e : Entry) (v : Nat) : Option Entry :=
  if h : v < 8 then some { e with low := ⟨v, h⟩ } else none

/-- Store `v` in the upper software field, unless it is too wide. -/
def setHigh? (e : Entry) (v : Nat) : Option Entry :=
  if h : v < 2048 then some { e with high := ⟨v, h⟩ } else none

/-! ## Entries and words -/

theorem testBit_eq_iff {n i : Nat} {b : Bool} :
    n.testBit i = b ↔ n >>> i % 2 = b.toNat := by
  rw [Nat.testBit_eq_decide_div_mod_eq, Nat.shiftRight_eq_div_pow]
  cases b <;> simp

theorem toNat_testBit (n i : Nat) : (n.testBit i).toNat = n >>> i % 2 :=
  (testBit_eq_iff.1 rfl).symm

theorem toNat_ofNat (n : Nat) : (ofNat n).toNat = n % Word.bound := by
  simp only [ofNat, toNat, toNat_testBit, Nat.shiftRight_eq_div_pow, Fin.ofNat, Word.bound]
  omega

theorem toNat_le_one (b : Bool) : b.toNat ≤ 1 := by cases b <;> decide

theorem ofNat_toNat (e : Entry) : ofNat e.toNat = e := by
  obtain ⟨p, w, u, t, c, a, d, g, l, ⟨lo, hlo⟩, ⟨f, hf⟩, ⟨hi, hhi⟩, x⟩ := e
  have := toNat_le_one p
  have := toNat_le_one w
  have := toNat_le_one u
  have := toNat_le_one t
  have := toNat_le_one c
  have := toNat_le_one a
  have := toNat_le_one d
  have := toNat_le_one g
  have := toNat_le_one l
  have := toNat_le_one x
  simp only [ofNat, toNat, mk.injEq, Fin.ofNat, Fin.mk.injEq, testBit_eq_iff,
    Nat.shiftRight_eq_div_pow]
  omega

end Entry

end Nucleus
