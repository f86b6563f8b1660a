import Nucleus.Heap.FreeList
import Nucleus.Heap.Region

/-!
# Kernel heap

A free list that is given its region once, and those who hold blocks of it.

* `FreeList.adopt`: give the heap its region; a second one is refused.
* `FreeList.serve`: a request to the kernel heap. Before the heap has its region none is served.
* `Client`: the heap with everything that was asked of it, in the order of asking.
-/

namespace Nucleus

namespace FreeList

/-- Give the heap its memory. Only the first call takes effect. -/
def adopt (l : FreeList) (r : Region) : Except Panic (Except AllocError FreeList) :=
  if l.ready then pure (.error .heapAlreadyInitialized) else .ok <$> l.init r.start r.size

def serve (l : FreeList) (size align : Nat) : Except Panic (Option Nat × FreeList) :=
  if l.ready then l.allocate size align else pure (none, l)

/-- Move the `size` bytes at `address` to a block of `newSize` bytes. The old block is given up
only when a new one was found, and after it, so the two never overlap. -/
def reallocate (l : FreeList) (address size align newSize : Nat) :
    Except Panic (Option Nat × FreeList) := do
  match ← l.serve newSize align with
  | (none, l) => pure (none, l)
  | (some q, l) => do
    let l ← l.deallocate (some address) size
    pure (some q, l)

end FreeList

/-- The answer to a request, and what was asked for. -/
structure Grant where
  address : Option Nat
  size : Nat
  align : Nat
deriving DecidableEq, Repr

structure Client where
  list : FreeList
  /-- By the number of the request, until the grant is given back. -/
  grants : Array (Option Grant)
deriving DecidableEq, Repr

namespace Client

def new : Client := ⟨.empty, #[]⟩

def grant? (c : Client) (i : Nat) : Option Grant := c.grants[i]?.join

/-- Keep the answer to a request. -/
def keep (c : Client) (size align : Nat) (r : Option Nat × FreeList) : Option Nat × Client :=
  (r.1, ⟨r.2, c.grants.push (some ⟨r.1, size, align⟩)⟩)

/-- Give grant `i` back, unless there is none. -/
def giveBack (c : Client) (i : Nat) : Except Panic (Option Client) := do
  match c.grant? i with
  | none => pure none
  | some g => do
    let l ← c.list.deallocate g.address g.size
    pure (some ⟨l, c.grants.setIfInBounds i none⟩)

/-- Exchange the block of grant `i` for one of `newSize` bytes; if there is none the grant stays
as it is. No answer for a grant that holds no block. -/
def exchange (c : Client) (i newSize : Nat) : Except Panic (Option (Option Nat × Client)) := do
  match c.grant? i with
  | some ⟨some p, size, align⟩ =>
    match ← c.list.reallocate p size align newSize with
    | (none, l) => pure (some (none, { c with list := l }))
    | (some q, l) =>
      pure (some (some q, ⟨l, c.grants.setIfInBounds i (some ⟨some q, newSize, align⟩)⟩))
  | _ => pure none

end Client

end Nucleus
