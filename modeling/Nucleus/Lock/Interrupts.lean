import Nucleus.Platform

/-!
# Masking interrupts

The interrupt flag of the one processor. A mask clears it for as long as it lives and afterwards
sets it again, but only if the mask itself had cleared it, so masks nest.
-/

namespace Nucleus

structure Interrupts where
  enabled : Bool
deriving DecidableEq, Repr

/-- A living mask: whether it will let interrupts in again. -/
structure Mask where
  restores : Bool
deriving DecidableEq, Repr

namespace Interrupts

def enable (_ : Interrupts) : Interrupts := ⟨true⟩

def disable (_ : Interrupts) : Interrupts := ⟨false⟩

/-- The flag's bit in the flags register, all others clear. -/
def flags (i : Interrupts) : Nat := if i.enabled then Platform.interruptFlag else 0

/-- Open a mask. -/
def mask (i : Interrupts) : Mask × Interrupts := (⟨i.enabled⟩, if i.enabled then i.disable else i)

/-- Close a mask. -/
def unmask (i : Interrupts) (m : Mask) : Interrupts := if m.restores then i.enable else i

/-- A mask leaves the flag as it found it. -/
theorem unmask_mask (i : Interrupts) : i.mask.2.unmask i.mask.1 = i := by
  obtain ⟨b⟩ := i
  cases b <;> rfl

/-- Under a mask interrupts are out. -/
theorem enabled_mask (i : Interrupts) : i.mask.2.enabled = false := by
  obtain ⟨b⟩ := i
  cases b <;> rfl

end Interrupts

end Nucleus
