import Nucleus.Frame.Allocator

/-!
# Heap region

The run of frames that the kernel heap lives in, taken from the frame allocator in one piece.
-/

namespace Nucleus
open Platform

structure Region where
  firstFrame : Nat
  frames : Nat
deriving DecidableEq, Repr

namespace Region

def start (r : Region) : Nat := r.firstFrame * frameBytes

/-- The region's size in bytes. -/
def size (r : Region) : Nat := r.frames * frameBytes

/-- The address after the last byte. -/
def stop (r : Region) : Nat := r.start + r.size

/-- The region's bytes, for a region that may leave the 64 bits. -/
def span? (r : Region) : Except Panic Span := do
  let first ← Frame.address? r.firstFrame
  let size ← Frame.address? r.frames
  let stop ← Word.add? first size
  pure ⟨first, stop⟩

def isEmpty (r : Region) : Bool := r.frames == 0

def target : String := "kernel_alloc::heap"

/-- Take a region of `count` frames. -/
def reserve (fs : Frames) (count : Nat) : Logged (Except AllocError (Region × Frames)) := do
  match ← fs.allocate count with
  | .error e =>
    Logged.note .error target s!"cannot reserve kernel heap: {e.message}"
    pure (.error e)
  | .ok (f, fs) =>
    let r : Region := ⟨f, count⟩
    Logged.note .info target s!"kernel heap at [{Word.hex r.start}, {Word.hex r.stop})"
    pure (.ok (r, fs))

/-- The region of the boot heap. -/
def bootstrap (fs : Frames) : Logged (Except AllocError (Region × Frames)) :=
  reserve fs heapFrames

end Region

end Nucleus
