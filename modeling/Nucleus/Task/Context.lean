import Nucleus.Word
import Nucleus.Platform

/-!
# Task contexts

The image of a task's registers while it does not run, laid out as the switching code expects it:
24 words and then the 512 bytes of floating-point state.

* `primed`: the image that starts a task at its entry point, on a stack of its own.
* `words`: the registers by name, in the order of their offsets. `ofWords?` takes them back.
-/

namespace Nucleus
open Platform

/-- The 512 bytes of floating-point and vector state. -/
structure FxArea where
  bytes : Vector UInt8 512
deriving DecidableEq, Repr

namespace FxArea

def zero : FxArea := ⟨Vector.replicate 512 0⟩

def byte (x : FxArea) (i : Fin 512) : UInt8 := x.bytes.get i

def put (x : FxArea) (i : Fin 512) (b : UInt8) : FxArea := ⟨x.bytes.setIfInBounds i b⟩

/-- The control word, least significant byte first from offset 24 on. -/
def mxcsr (x : FxArea) : Nat :=
  (x.byte 24).toNat + 0x100 * (x.byte 25).toNat + 0x10000 * (x.byte 26).toNat +
    0x1000000 * (x.byte 27).toNat

def setMxcsr (x : FxArea) (v : Nat) : FxArea :=
  (((x.put 24 (UInt8.ofNat v)).put 25 (UInt8.ofNat (v / 0x100))).put 26
    (UInt8.ofNat (v / 0x10000))).put 27 (UInt8.ofNat (v / 0x1000000))

/-- The bytes that are not 0, with their offsets. -/
def nonzero (x : FxArea) : List (Nat × UInt8) :=
  (x.bytes.toList.zipIdx.map fun (b, i) => (i, b)).filter fun p => p.2 != 0

theorem byte_put (x : FxArea) (i j : Fin 512) (b : UInt8) :
    (x.put i b).byte j = if i = j then b else x.byte j := by
  simp only [Fin.ext_iff]
  exact Vector.getElem_setIfInBounds j.isLt

theorem mxcsr_setMxcsr (x : FxArea) (v : Nat) : (x.setMxcsr v).mxcsr = v % 0x100000000 := by
  simp only [mxcsr, setMxcsr, byte_put, Fin.reduceEq, if_false, if_true, UInt8.toNat_ofNat']
  omega

end FxArea

structure Context where
  cr3 : UInt64
  rip : UInt64
  rflags : UInt64
  reserved1 : UInt64
  cs : UInt64
  ss : UInt64
  fs : UInt64
  gs : UInt64
  rax : UInt64
  rbx : UInt64
  rcx : UInt64
  rdx : UInt64
  rdi : UInt64
  rsi : UInt64
  rsp : UInt64
  rbp : UInt64
  r8 : UInt64
  r9 : UInt64
  r10 : UInt64
  r11 : UInt64
  r12 : UInt64
  r13 : UInt64
  r14 : UInt64
  r15 : UInt64
  fx : FxArea
deriving DecidableEq, Repr

namespace Context

def zero : Context :=
  ⟨0, 0, 0, 0, 0, 0, 0, 0, 0, 0, 0, 0, 0, 0, 0, 0, 0, 0, 0, 0, 0, 0, 0, 0, .zero⟩

/-- The registers by name; word `i` lies at offset `8 * i`. -/
def words (c : Context) : List (String × UInt64) :=
  [("cr3", c.cr3), ("rip", c.rip), ("rflags", c.rflags), ("reserved1", c.reserved1),
    ("cs", c.cs), ("ss", c.ss), ("fs", c.fs), ("gs", c.gs),
    ("rax", c.rax), ("rbx", c.rbx), ("rcx", c.rcx), ("rdx", c.rdx),
    ("rdi", c.rdi), ("rsi", c.rsi), ("rsp", c.rsp), ("rbp", c.rbp),
    ("r8", c.r8), ("r9", c.r9), ("r10", c.r10), ("r11", c.r11),
    ("r12", c.r12), ("r13", c.r13), ("r14", c.r14), ("r15", c.r15)]

/-- The context with the given registers, in the order of `words`. -/
def ofWords? : List UInt64 → FxArea → Option Context
  | [cr3, rip, rflags, reserved1, cs, ss, fs, gs, rax, rbx, rcx, rdx, rdi, rsi, rsp, rbp, r8, r9,
      r10, r11, r12, r13, r14, r15], fx =>
    some ⟨cr3, rip, rflags, reserved1, cs, ss, fs, gs, rax, rbx, rcx, rdx, rdi, rsi, rsp, rbp, r8,
      r9, r10, r11, r12, r13, r14, r15, fx⟩
  | _, _ => none

theorem ofWords?_words (c : Context) : ofWords? (c.words.map Prod.snd) c.fx = some c := rfl

/-- Where each part of the image lies. -/
def offsets : List (String × Nat) :=
  (zero.words.zipIdx.map fun (w, i) => (w.1, 8 * i)) ++ [("fxsave_area", 8 * zero.words.length)]

/-- Bytes of the image. -/
def size : Nat := 8 * zero.words.length + 512

/-- The floating-point state must start at a multiple of this. -/
def alignment : Nat := 16

/-- Where the stack pointer of a new task stands: as if its entry had just been called, so that
eight more bytes reach a multiple of 16. -/
def stackTop? (stackEnd : Nat) : Except Panic Nat := Word.sub? (stackEnd / 16 * 16) 8

/-- The image that starts the code at `entry` with the task's number and `arg`, interrupts let in
and the stack pointer at `rsp`. -/
def start (entry : UInt64) (task : Nat) (arg : Int64) (rsp : Nat) (cr3 : UInt64) : Context :=
  { zero with
    rip := entry
    rdi := UInt64.ofNat task
    rsi := arg.toUInt64
    cr3 := cr3
    rflags := UInt64.ofNat interruptFlag
    cs := UInt64.ofNat codeSelector
    ss := UInt64.ofNat stackSelector
    rsp := UInt64.ofNat rsp
    fx := FxArea.zero.setMxcsr defaultMxcsr }

/-- The image that starts a task on the stack that ends at `stackEnd`. -/
def primed (entry : UInt64) (task : Nat) (arg : Int64) (stackEnd : Nat) (cr3 : UInt64) :
    Except Panic Context := do
  let rsp ← stackTop? stackEnd
  pure (start entry task arg rsp cr3)

end Context

end Nucleus
