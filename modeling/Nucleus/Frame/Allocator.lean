import Nucleus.Frame.Bitmap
import Nucleus.Journal

/-!
# Frame allocator

A packed bitmap and the window of frames that requests are served from.

* `allocate` is first fit: the lowest run of free frames inside the window.
* `mark` and `release` take and give back frames whatever their state; both ignore frames that
  the bitmap does not have.
-/

namespace Nucleus

/-- How many frames of the window are taken, and how many it has. -/
structure Usage where
  taken : Nat
  total : Nat
deriving DecidableEq, Repr

def Usage.free? (u : Usage) : Except Panic Nat := Word.sub? u.total u.taken

structure Frames where
  bitmap : Bitmap
  window : Span
deriving DecidableEq, Repr

namespace Frames

/-- Every frame taken, and all of them in the window. -/
def full (lines : Nat) : Frames :=
  let b := Bitmap.full lines
  ⟨b, ⟨0, b.capacity⟩⟩

def capacity (fs : Frames) : Nat := fs.bitmap.capacity

def isTaken (fs : Frames) (f : Nat) : Bool := fs.bitmap.taken f

/-- Serve requests from the frames of `[first, stop)` only, as far as the bitmap goes. -/
def restrict (fs : Frames) (first stop : Nat) : Except Panic Frames :=
  let stop := min stop fs.capacity
  if first ≤ stop then .ok { fs with window := ⟨first, stop⟩ } else .error .invertedWindow

/-- The frames among the `n` from `start` on that the bitmap has. -/
def clamp (fs : Frames) (start n : Nat) : Span :=
  ⟨min start fs.capacity, min (Word.satAdd start n) fs.capacity⟩

def mark (fs : Frames) (start n : Nat) : Frames :=
  let r := fs.clamp start n
  { fs with bitmap := fs.bitmap.mark r.first r.stop }

def release (fs : Frames) (start n : Nat) : Frames :=
  let r := fs.clamp start n
  { fs with bitmap := fs.bitmap.release r.first r.stop }

def usage (fs : Frames) : Usage := ⟨fs.bitmap.count fs.window, fs.window.length⟩

/-- All taken frames as maximal runs `(start, length)`, in ascending order. -/
def takenRuns (fs : Frames) : List (Nat × Nat) := fs.bitmap.runs ⟨0, fs.capacity⟩

def target : String := "kernel_alloc::bitmap"

/-- Take the lowest run of `n` free frames of the window. A refused request changes nothing. -/
def allocate (fs : Frames) (n : Nat) : Logged (Except AllocError (Nat × Frames)) :=
  if n = 0 then pure (.error .emptyRequest)
  else
    match fs.bitmap.firstFit fs.window n with
    | none => do
      Logged.note .warn target s!"frame allocation of {n} frames failed"
      pure (.error (.outOfMemory n))
    | some f => do
      Logged.note .trace target s!"allocated {n} frames at {Word.hex (f * Platform.frameBytes)}"
      pure (.ok (f, fs.mark f n))

end Frames

end Nucleus
