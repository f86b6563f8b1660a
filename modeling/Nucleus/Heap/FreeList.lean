import Nucleus.Word

/-!
# Free list

The free memory of a heap as blocks in ascending order of address. The list stands for the chain of
headers that the blocks hold in their own first bytes; which of those a request writes is noted by
`FreeList.Noted`. Starts and sizes are multiples of `granule`, so whatever a split leaves over can
be a block again.

* `insert` puts a block in its place and joins it with the neighbours it touches.
* `allocate` carves from the first block that can hold the request at its alignment; the rest of
  the block, in front and behind, goes back to the list.
* `alignDown_granule`: clearing the low bits rounds down to whole granules.
* `bytes_insert`: inserting a block adds its size to the free bytes, joined or not.
-/

namespace Nucleus

/-- The free bytes from `start` on. -/
structure Block where
  start : Nat
  size : Nat
deriving DecidableEq, Repr

def Block.stop (b : Block) : Nat := b.start + b.size

structure FreeList where
  blocks : List Block
  /-- Whether the heap was given its memory. -/
  ready : Bool
deriving DecidableEq, Repr

namespace FreeList

/-- Every block starts at a multiple of this, and its size is one. -/
def granule : Nat := 16

/-- Clear in `a` the bits of `align - 1`. For a power of two this is its greatest multiple up to
`a`. -/
def alignDown (a align : Nat) : Nat := a - (a &&& (align - 1))

/-- For a power of two `align`, its least multiple that is not below `a`. -/
def alignUp? (a align : Nat) : Except Panic Nat := do
  let s ← Word.add? a (align - 1)
  pure (alignDown s align)

/-- The bytes set aside for a request of `n` bytes; a request for none still takes a granule. -/
def blockSize? (n : Nat) : Except Panic Nat := alignUp? (max n 1) granule

def empty : FreeList := ⟨[], false⟩

/-- Put `b` in front of blocks that all start after it, as one block with the first of them if
the two touch. -/
def attach (b : Block) : List Block → List Block
  | [] => [b]
  | c :: cs => if b.stop = c.start then ⟨b.start, b.size + c.size⟩ :: cs else b :: c :: cs

def insert (b : Block) : List Block → List Block
  | [] => [b]
  | c :: cs => if c.start < b.start then attach c (insert b cs) else attach b (c :: cs)

/-- Where in `b` a request of `size` bytes goes, if it fits. -/
def place? (b : Block) (size align : Nat) : Except Panic (Option Nat) := do
  let p ← alignUp? b.start align
  pure (if Word.satAdd p size ≤ b.stop then some p else none)

/-- The place for a request, the block it lies in, and the other blocks. -/
def find? (size align : Nat) : List Block → Except Panic (Option (Nat × Block × List Block))
  | [] => pure none
  | b :: bs => do
    match ← place? b size align with
    | some p => pure (some (p, b, bs))
    | none =>
      match ← find? size align bs with
      | some (p, c, cs) => pure (some (p, c, b :: cs))
      | none => pure none

/-- What is left when the bytes of `[p, q)` are cut out of `b`, put back among `bs`. -/
def putBack (b : Block) (p q : Nat) (bs : List Block) : List Block :=
  let bs := if b.start < p then insert ⟨b.start, p - b.start⟩ bs else bs
  if q < b.stop then insert ⟨q, b.stop - q⟩ bs else bs

/-- The address of `size` fresh bytes at a multiple of `align`, if some block can hold them. -/
def allocate (l : FreeList) (size align : Nat) : Except Panic (Option Nat × FreeList) := do
  let size ← blockSize? size
  match ← find? size (max align granule) l.blocks with
  | none => pure (none, l)
  | some (p, b, bs) => pure (some p, { l with blocks := putBack b p (p + size) bs })

/-- Give back what `allocate` returned for a request of `size` bytes. -/
def deallocate (l : FreeList) (address : Option Nat) (size : Nat) : Except Panic FreeList := do
  match address with
  | none => pure l
  | some p =>
    let size ← blockSize? size
    pure { l with blocks := insert ⟨p, size⟩ l.blocks }

/-- Give the heap the `size` bytes from `start` on, less what lies outside whole granules. -/
def init (l : FreeList) (start size : Nat) : Except Panic FreeList := do
  let first ← alignUp? start granule
  let stop := alignDown (Word.satAdd start size) granule
  let blocks := if first < stop then insert ⟨first, stop - first⟩ l.blocks else l.blocks
  pure ⟨blocks, true⟩

/-- The bytes of all blocks of a list. -/
def bytes : List Block → Nat
  | [] => 0
  | b :: bs => b.size + bytes bs

def freeBytes (l : FreeList) : Nat := bytes l.blocks

theorem alignDown_granule (a : Nat) : alignDown a granule = a / granule * granule := by
  have : a &&& 15 = a % 16 := Nat.and_two_pow_sub_one_eq_mod a 4
  simp only [alignDown, granule, Nat.add_one_sub_one, this]
  omega

theorem bytes_attach (b : Block) (bs : List Block) : bytes (attach b bs) = b.size + bytes bs := by
  cases bs with
  | nil => rfl
  | cons c cs =>
    rw [attach]
    split
    · simp only [bytes, Nat.add_assoc]
    · rfl

theorem bytes_insert (b : Block) (bs : List Block) : bytes (insert b bs) = b.size + bytes bs := by
  induction bs with
  | nil => rfl
  | cons c cs ih =>
    rw [insert]
    split
    · rw [bytes_attach, ih, bytes]
      omega
    · exact bytes_attach b (c :: cs)

end FreeList

end Nucleus
