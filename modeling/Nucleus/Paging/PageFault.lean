import Nucleus.Paging.Store

/-!
# Page faults

A fault is resolved by mapping one fresh page, and only if no page was there and the address lies
in the window that the faulting task may grow into.
-/

namespace Nucleus

/-- Why the hardware raised a page fault. -/
structure FaultCode where
  present : Bool
  write : Bool
  user : Bool
  reservedBit : Bool
  instructionFetch : Bool
  protectionKey : Bool
  shadowStack : Bool
deriving DecidableEq, Repr

namespace FaultCode

/-- Read the error code the hardware pushes. The bits from 7 on mean nothing. -/
def ofNat (n : Nat) : FaultCode where
  present := n.testBit 0
  write := n.testBit 1
  user := n.testBit 2
  reservedBit := n.testBit 3
  instructionFetch := n.testBit 4
  protectionKey := n.testBit 5
  shadowStack := n.testBit 6

/-- The bits by name, from the lowest up. -/
def bits (c : FaultCode) : List (String × Bool) :=
  [("present", c.present), ("write", c.write), ("user", c.user), ("reserved_bit", c.reservedBit),
    ("instruction_fetch", c.instructionFetch), ("protection_key", c.protectionKey),
    ("shadow_stack", c.shadowStack)]

def explain (c : FaultCode) : String :=
  if !c.present then "Non-present page (page not mapped or swapped out)"
  else if c.instructionFetch then
    if c.user then "User-mode instruction fetch on protected page (likely NX or SMEP)"
    else "Kernel instruction fetch on protected page"
  else if c.write then "Write access to protected page"
  else "Read access to protected page"

end FaultCode

namespace Store

def faultTarget : String := "kernel_vmem::page_fault"

/-- Why a fault is not to be resolved, if it is not. -/
def refusal? (code : FaultCode) (address : Nat) (window : Span) : Option PagingError :=
  if code.present then some (.protectionViolation address)
  else if !window.contains address then some (.outOfRange address)
  else none

/-- Resolve a fault at `address` in the tree at `root`, if `window` allows it. -/
def handleFault (s : Store) (root : Nat) (code : FaultCode) (address : Nat) (window : Span) :
    Logged (Except PagingError Unit × Store) :=
  match refusal? code address window with
  | some e => pure (.error e, s)
  | none => do
    Logged.note .trace faultTarget s!"demand paging {Word.hex address}: {code.explain}"
    s.map root address 1

end Store

end Nucleus
