import Nucleus.Word
import Nucleus.Platform

/-!
# Physical frames

A frame is named by its number `f`; its bytes are those from `f * frameBytes` on.

* `containing` rounds an address down to a frame, `atOrAfter` rounds it up.
* `AllocError` lists what a request for frames or for the heap can be refused with.
-/

namespace Nucleus.Frame
open Platform

/-- The address of the first byte of frame `f`. -/
def address? (f : Nat) : Except Panic Nat := Word.mul? f frameBytes

/-- The frame that holds the byte at `a`. -/
def containing (a : Nat) : Nat := a / frameBytes

/-- The first frame that starts at `a` or later. -/
def atOrAfter (a : Nat) : Nat := (a + (frameBytes - 1)) / frameBytes

/-- The frame `n` places after `f`. -/
def offset? (f n : Nat) : Except Panic Nat := Word.add? f n

theorem containing_le_iff {a f : Nat} : f ≤ containing a ↔ f * frameBytes ≤ a := by
  simp only [containing, frameBytes]
  omega

theorem atOrAfter_le_iff {a f : Nat} : atOrAfter a ≤ f ↔ a ≤ f * frameBytes := by
  simp only [atOrAfter, frameBytes]
  omega

end Nucleus.Frame

namespace Nucleus

/-- Why a request for memory was refused. -/
inductive AllocError where
  /-- No run of that many free frames lies in the window. -/
  | outOfMemory (requested : Nat)
  /-- A run of no frames was asked for. -/
  | emptyRequest
  /-- The heap has its region already. -/
  | heapAlreadyInitialized
deriving DecidableEq, Repr

def AllocError.kind : AllocError → String
  | .outOfMemory _ => "OutOfMemory"
  | .emptyRequest => "EmptyRequest"
  | .heapAlreadyInitialized => "HeapAlreadyInitialized"

def AllocError.message : AllocError → String
  | .outOfMemory n => s!"out of physical memory ({n} contiguous frames requested)"
  | .emptyRequest => "zero-sized frame request"
  | .heapAlreadyInitialized => "kernel heap already initialized"

end Nucleus
