import Nucleus.Word

/-!
# Linear addresses

A 64-bit linear address is a number in mixed radix: twelve bits of page offset, four table indices
of nine bits, and sixteen bits that no table looks at. The indices are counted from the leaf up:
level 1 picks an entry of a page table, level 4 one of the top table.

* `ofNat_toNat`, `toNat_ofNat`: digits and number determine each other.
* `canonical` copies the top bit of the indices into the sixteen upper bits.
* `advance` moves on to the first page of the next entry at a level.
-/

namespace Nucleus

structure Linear where
  offset : Fin 4096
  pt : Fin 512
  pd : Fin 512
  pdpt : Fin 512
  pml4 : Fin 512
  sign : Fin 65536
deriving DecidableEq, Repr

namespace Linear

def ofNat (n : Nat) : Linear where
  offset := Fin.ofNat 4096 n
  pt := Fin.ofNat 512 (n / 0x1000)
  pd := Fin.ofNat 512 (n / 0x200000)
  pdpt := Fin.ofNat 512 (n / 0x40000000)
  pml4 := Fin.ofNat 512 (n / 0x8000000000)
  sign := Fin.ofNat 65536 (n / 0x1000000000000)

def toNat (a : Linear) : Nat :=
  a.offset + 0x1000 * a.pt + 0x200000 * a.pd + 0x40000000 * a.pdpt + 0x8000000000 * a.pml4 +
    0x1000000000000 * a.sign

/-- The table index at `level`; there are none outside 1 to 4, and those read 0. -/
def part (a : Linear) : (level : Nat) → Fin 512
  | 1 => a.pt
  | 2 => a.pd
  | 3 => a.pdpt
  | 4 => a.pml4
  | _ => 0

/-- Replace the table index at `level` by `v` modulo 512. -/
def setPart (a : Linear) (level v : Nat) : Linear :=
  match level with
  | 1 => { a with pt := Fin.ofNat 512 v }
  | 2 => { a with pd := Fin.ofNat 512 v }
  | 3 => { a with pdpt := Fin.ofNat 512 v }
  | 4 => { a with pml4 := Fin.ofNat 512 v }
  | _ => a

/-- The address with the upper sixteen bits all equal to the top bit of the indices. -/
def canonical (a : Linear) : Linear := { a with sign := if 256 ≤ a.pml4.val then 65535 else 0 }

def isCanonical (a : Linear) : Bool := a = a.canonical

/-- The canonical address with the given indices, each taken modulo its range. -/
def ofParts (pml4 pdpt pd pt offset : Nat) : Linear :=
  canonical
    { offset := Fin.ofNat 4096 offset
      pt := Fin.ofNat 512 pt
      pd := Fin.ofNat 512 pd
      pdpt := Fin.ofNat 512 pdpt
      pml4 := Fin.ofNat 512 pml4
      sign := 0 }

/-- Every index below `level` set to 0. -/
def clearBelow (a : Linear) (level : Nat) : Linear :=
  (List.range level).foldl (fun a l => a.setPart l 0) a

/-- The first page of the entry after the current one at `level`. -/
def advance (a : Linear) (level : Nat) : Linear :=
  (a.setPart level (a.part level + 1)).clearBelow level

/-! ## Fields -/

inductive Field where
  | offset | pt | pd | pdpt | pml4 | sign
deriving DecidableEq, Repr

namespace Field

def all : List Field := [offset, pt, pd, pdpt, pml4, sign]

def name : Field → String
  | offset => "offset"
  | pt => "page"
  | pd => "dir"
  | pdpt => "pdp"
  | pml4 => "pml4"
  | sign => "sign"

/-- The number of values of a field. -/
def bound : Field → Nat
  | offset => 4096
  | sign => 65536
  | _ => 512

end Field

/-- Store `v` in a field, unless it is too wide. -/
def set? (a : Linear) (f : Field) (v : Nat) : Option Linear :=
  if v < f.bound then
    some <| match f with
      | .offset => { a with offset := Fin.ofNat 4096 v }
      | .pt => a.setPart 1 v
      | .pd => a.setPart 2 v
      | .pdpt => a.setPart 3 v
      | .pml4 => a.setPart 4 v
      | .sign => { a with sign := Fin.ofNat 65536 v }
  else none

/-! ## Digits and numbers -/

theorem toNat_ofNat (n : Nat) : (ofNat n).toNat = n % Word.bound := by
  simp only [ofNat, toNat, Fin.ofNat, Word.bound]
  omega

theorem ofNat_toNat (a : Linear) : ofNat a.toNat = a := by
  obtain ⟨⟨o, ho⟩, ⟨t, ht⟩, ⟨d, hd⟩, ⟨p, hp⟩, ⟨m, hm⟩, ⟨s, hs⟩⟩ := a
  simp only [ofNat, toNat, Fin.ofNat, mk.injEq, Fin.mk.injEq]
  omega

theorem toNat_lt (a : Linear) : a.toNat < Word.bound := by
  have := a.offset.isLt
  have := a.pt.isLt
  have := a.pd.isLt
  have := a.pdpt.isLt
  have := a.pml4.isLt
  have := a.sign.isLt
  simp only [toNat, Word.bound]
  omega

end Linear

end Nucleus
