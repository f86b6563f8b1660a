/-!
# Platform

The sizes and numbers that the hardware, the firmware and the kernel's own memory plan fix.
-/

namespace Nucleus.Platform

/-! ## Memory -/

/-- Bytes of a physical frame and of a small page. -/
def frameBytes : Nat := 0x1000

/-- Bytes of the pages that firmware counts memory in. -/
def firmwarePageBytes : Nat := 0x1000

/-- Frames that one word of a frame bitmap tracks. -/
def lineFrames : Nat := 64

/-- The frame bitmap covers physical memory up to here. -/
def memoryEnd : Nat := 0x2000000000

def frameCount : Nat := memoryEnd / frameBytes

/-- Words of the full-size frame bitmap. -/
def lineCount : Nat := frameCount / lineFrames

/-- Frames set aside for the kernel heap at boot. -/
def heapFrames : Nat := 0x8000

/-! ## Paging -/

def tableEntries : Nat := 512

/-- Bytes mapped by one entry of a page directory. -/
def largePageBytes : Nat := 0x200000

/-- Bytes mapped by one whole page directory. -/
def directoryBytes : Nat := 0x40000000

/-- Page directories of the identity map. -/
def directoryCount : Nat := 64

/-- The identity map covers the addresses below this one. -/
def identityEnd : Nat := directoryCount * directoryBytes

/-- The first top-level slot of a task's own half of the address space. -/
def userFirst : Nat := tableEntries / 2

/-- Tasks grow into addresses from here on. -/
def demandPagingBase : Nat := 0xffff800000000000

/-! ## Processor -/

def codeSelector : Nat := 0x8

def stackSelector : Nat := 0x10

/-- The bit of the flags register that lets interrupts in. -/
def interruptFlag : Nat := 0x200

/-- Floating-point control a task starts with: all exceptions masked. -/
def defaultMxcsr : Nat := 0x1f80

/-! ## Scheduling -/

/-- The level of the idle task. -/
def idleLevel : Nat := 0

/-- The level of a task that was never given another. -/
def defaultLevel : Nat := 1

def maxLevel : Nat := 7

/-- Bytes of a task's private stack. -/
def stackBytes : Nat := 0x8000

/-- Timer interrupts per second. -/
def timerFrequency : Nat := 100

/-- Ticks between two expiries of the preemption timer. -/
def preemptionPeriod : Nat := 2

/-- The value the preemption timer carries. Other timers may carry it too. -/
def preemptionValue : Int := -2147483648

/-! ## Table -/

/-- The parameters that are not negative, by the names they are published under. -/
def parameters : List (String × Nat) :=
  [("BITS_PER_MAP_LINE", lineFrames), ("BYTES_PER_FRAME", frameBytes),
    ("BYTES_PER_LARGE_PAGE", largePageBytes), ("BYTES_PER_PAGE_DIRECTORY", directoryBytes),
    ("DEFAULT_LEVEL", defaultLevel), ("DEFAULT_MXCSR", defaultMxcsr),
    ("DEMAND_PAGING_BASE", demandPagingBase), ("ENTRIES_PER_TABLE", tableEntries),
    ("FRAME_COUNT", frameCount), ("HEAP_FRAMES", heapFrames),
    ("IDENTITY_MAP_END", identityEnd), ("IDLE_LEVEL", idleLevel),
    ("KERNEL_CS", codeSelector), ("KERNEL_SS", stackSelector),
    ("MAP_LINES", lineCount), ("MAX_LEVEL", maxLevel),
    ("MAX_PHYSICAL_MEMORY_BYTES", memoryEnd), ("PAGE_DIRECTORY_COUNT", directoryCount),
    ("RFLAGS_IF", interruptFlag), ("TASK_STACK_BYTES", stackBytes),
    ("TASK_TIMER_PERIOD", preemptionPeriod), ("TIMER_FREQ", timerFrequency),
    ("UEFI_PAGE_SIZE", firmwarePageBytes), ("USER_PML4_FIRST", userFirst)]

end Nucleus.Platform
