import Nucleus.Frame.MemoryMap
import Nucleus.Heap.Region
import Nucleus.Lock.Spin
import Nucleus.Paging.Identity

/-!
# Memory bring-up

In the order the rest of the kernel depends on: seed the frame allocator from the firmware's map,
build the identity map and load it, and set the heap's region aside. Everything happens with
interrupts masked and the allocator locked.

* `Boot.bringUpOn`: the work under the lock, with the load of the root left to the processor.
* `Boot.bringUp`: the same on a processor that keeps the addresses it was given.
-/

namespace Nucleus
open Platform

/-- Why bringing the kernel up failed. -/
inductive KernelError where
  | alloc (e : AllocError)
  /-- There is a kernel core already. -/
  | alreadyInstalled
deriving DecidableEq, Repr

def KernelError.kind : KernelError → String
  | .alloc e => e.kind
  | .alreadyInstalled => "AlreadyInstalled"

def KernelError.message : KernelError → String
  | .alloc e => e.message
  | .alreadyInstalled => "kernel core already installed"

/-- What memory bring-up works on. -/
structure Boot where
  frames : SpinLock Frames
  memory : Memory
  interrupts : Interrupts
  /-- The addresses loaded as roots of the active tree, the oldest first. -/
  roots : List Nat

namespace Boot

def target : String := "kernel_core::boot"

/-- An allocator of `lines` lines with every frame taken, and cleared identity tables at the frame
`root`. -/
def new (lines root : Nat) : Boot :=
  ⟨.new (.full lines), IdentityMap.clear .zero root, ⟨true⟩, []⟩

/-- The work under the lock, on any processor: `load` is what a load of the root does to its state,
by the address and by what memory holds then. -/
def bringUpOn (load : Nat → Memory → σ → σ) (frames : Frames) (memory : Memory) (p : σ)
    (map : List Descriptor) (root : Nat) :
    Checked (Except KernelError Region × Frames × Memory × σ) := do
  let frames ← frames.ingest map
  let memory ← Checked.ofLogged (IdentityMap.build memory root)
  let p := load (root * frameBytes) memory p
  Checked.note .info target s!"identity map active, cr3 {Word.hex (root * frameBytes)}"
  match ← Checked.ofLogged (Region.bootstrap frames) with
  | .error e => pure (.error (.alloc e), frames, memory, p)
  | .ok (r, frames) => pure (.ok r, frames, memory, p)

/-- The same where the addresses of the roots are kept. -/
def bringUp : Frames → Memory → List Nat → List Descriptor → Nat →
    Checked (Except KernelError Region × Frames × Memory × List Nat) :=
  bringUpOn fun address _ roots => roots ++ [address]

/-- Bring memory up from the firmware's map, with the identity map at the frame `root`. -/
def initMemory (b : Boot) (map : List Descriptor) (root : Nat) :
    Checked (Except KernelError Region × Boot) := do
  let (m, interrupts) := b.interrupts.mask
  let lock := b.frames.lock
  let (answer, frames, memory, roots) ← bringUp lock.value b.memory b.roots map root
  let lock := SpinLock.unlock { lock with value := frames }
  pure (answer, ⟨lock, memory, interrupts.unmask m, roots⟩)

end Boot

end Nucleus
