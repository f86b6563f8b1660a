import Nucleus.Frame.Allocator

/-!
# Firmware memory map

Firmware describes physical memory by descriptors, each a run of pages of one type. Frames that
lie wholly inside memory the kernel may use are released; frames that lie wholly inside any other
descriptor are then taken again, so a contradiction in the map is settled for "reserved".

* `MemoryType.available`: boot-services and conventional memory only.
* `Descriptor.frames`: the frames a descriptor covers to the last byte.
* `Frames.ingest`: seed an allocator from a map.
-/

namespace Nucleus
open Platform

inductive MemoryType where
  | reserved
  | loaderCode
  | loaderData
  | bootServicesCode
  | bootServicesData
  | runtimeServicesCode
  | runtimeServicesData
  | conventional
  | unusable
  | acpiReclaim
  | acpiNvs
  | memoryMappedIo
  | memoryMappedIoPortSpace
  | palCode
  | persistent
  /-- A type code the kernel does not know. -/
  | other (code : Nat)
deriving DecidableEq, Repr

namespace MemoryType

/-- The type with the given firmware code. -/
def ofCode : Nat → MemoryType
  | 0 => reserved
  | 1 => loaderCode
  | 2 => loaderData
  | 3 => bootServicesCode
  | 4 => bootServicesData
  | 5 => runtimeServicesCode
  | 6 => runtimeServicesData
  | 7 => conventional
  | 8 => unusable
  | 9 => acpiReclaim
  | 10 => acpiNvs
  | 11 => memoryMappedIo
  | 12 => memoryMappedIoPortSpace
  | 13 => palCode
  | 14 => persistent
  | n => other n

def name : MemoryType → String
  | reserved => "Reserved"
  | loaderCode => "LoaderCode"
  | loaderData => "LoaderData"
  | bootServicesCode => "BootServicesCode"
  | bootServicesData => "BootServicesData"
  | runtimeServicesCode => "RuntimeServicesCode"
  | runtimeServicesData => "RuntimeServicesData"
  | conventional => "Conventional"
  | unusable => "Unusable"
  | acpiReclaim => "AcpiReclaim"
  | acpiNvs => "AcpiNvs"
  | memoryMappedIo => "MemoryMappedIo"
  | memoryMappedIoPortSpace => "MemoryMappedIoPortSpace"
  | palCode => "PalCode"
  | persistent => "Persistent"
  | other code => s!"Other({code})"

/-- Whether the kernel may hand out memory of this type. -/
def available : MemoryType → Bool
  | bootServicesCode | bootServicesData | conventional => true
  | _ => false

end MemoryType

/-- A physically contiguous run of firmware pages. -/
structure Descriptor where
  type : MemoryType
  start : Nat
  pages : Nat
deriving DecidableEq, Repr

namespace Descriptor

def available (d : Descriptor) : Bool := d.type.available

/-- The address after the last byte, or the largest word if that lies beyond. -/
def stop (d : Descriptor) : Nat := Word.satAdd d.start (Word.satMul d.pages firmwarePageBytes)

/-- The first frame that starts inside the descriptor. -/
def firstFrame (d : Descriptor) : Nat := Frame.atOrAfter d.start

/-- How many frames the descriptor covers to the last byte. -/
def frameCount (d : Descriptor) : Nat := Frame.containing d.stop - d.firstFrame

/-- The descriptor covers frame `f` to the last byte. -/
def covers (d : Descriptor) (f : Nat) : Bool :=
  d.firstFrame ≤ f && f < d.firstFrame + d.frameCount

theorem covers_iff {d : Descriptor} {f : Nat} :
    d.covers f = true ↔ d.start ≤ f * frameBytes ∧ (f + 1) * frameBytes ≤ d.stop := by
  rw [covers, Bool.and_eq_true, decide_eq_true_iff, decide_eq_true_iff]
  simp only [frameCount, firstFrame, Frame.atOrAfter, Frame.containing, frameBytes]
  omega

end Descriptor

/-- An allocator on the way through a memory map: the frames released so far, and the end of the
last of them. -/
structure Ingestion where
  frames : Frames
  released : Nat
  stop : Nat
deriving DecidableEq, Repr

namespace Ingestion

def target : String := "kernel_alloc::memory_map"

/-- Release the frames of an available descriptor. -/
def releaseDescriptor (i : Ingestion) (d : Descriptor) : Checked Ingestion := do
  Checked.note .debug target s!"usable {d.type.name} [{Word.hex d.start}, {Word.hex d.stop})"
  let frames := i.frames.release d.firstFrame d.frameCount
  let released ← Checked.check (Word.add? i.released d.frameCount)
  let stop ← Checked.check (Frame.offset? d.firstFrame d.frameCount)
  pure ⟨frames, released, max i.stop stop⟩

end Ingestion

/-- Release what `map` says is available, take again what it says is not, and open the window
from frame 1, so that frame 0 is never handed out, to the end of the available frames. -/
def Frames.ingest (fs : Frames) (map : List Descriptor) : Checked Frames := do
  let i ← (map.filter Descriptor.available).foldlM Ingestion.releaseDescriptor ⟨fs, 0, 0⟩
  let reserved := map.filter fun d => !d.available
  let fs := reserved.foldl (fun fs d => fs.mark d.firstFrame d.frameCount) i.frames
  let fs ← Checked.check (fs.restrict 1 i.stop)
  let free ← Checked.check fs.usage.free?
  let stop := Word.hex (fs.window.stop * frameBytes)
  Checked.note .info Ingestion.target
    s!"memory map: {i.released} usable frames, {free} free in window [1, {stop})"
  pure fs

end Nucleus
