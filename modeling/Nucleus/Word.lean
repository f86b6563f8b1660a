/-!
# Machine words

Addresses, counts and ticks are 64-bit quantities kept as natural numbers. An operation whose
result may leave the 64 bits says what happens there: `add?`, `sub?` and `mul?` panic, `satAdd`
and `satMul` stop at the largest word.
-/

namespace Nucleus

/-- An internal check that failed. The kernel does not go on after one. -/
inductive Panic where
  /-- A sum or a product left the 64 bits. -/
  | overflow
  /-- A difference would have been negative. -/
  | underflow
  /-- A frame window was set whose end lies before its start. -/
  | invertedWindow
  /-- A paging structure was looked for at an address that no frame starts at. -/
  | misalignedTable
deriving DecidableEq, Repr

namespace Word

/-! ## Fields

The moduli of the bit fields that words are divided into. -/

instance neZero8 : @NeZero Nat Zero.ofOfNat0 8 := ⟨by decide⟩
instance neZero512 : @NeZero Nat Zero.ofOfNat0 512 := ⟨by decide⟩
instance neZero2048 : @NeZero Nat Zero.ofOfNat0 2048 := ⟨by decide⟩
instance neZero4096 : @NeZero Nat Zero.ofOfNat0 4096 := ⟨by decide⟩
instance neZero65536 : @NeZero Nat Zero.ofOfNat0 65536 := ⟨by decide⟩
instance neZero1099511627776 : @NeZero Nat Zero.ofOfNat0 1099511627776 := ⟨by decide⟩

/-! ## Words -/

/-- The number of values of a 64-bit word. -/
def bound : Nat := 18446744073709551616

/-- The largest 64-bit word. -/
def max : Nat := bound - 1

def add? (a b : Nat) : Except Panic Nat :=
  if a + b < bound then .ok (a + b) else .error .overflow

def mul? (a b : Nat) : Except Panic Nat :=
  if a * b < bound then .ok (a * b) else .error .overflow

def sub? (a b : Nat) : Except Panic Nat :=
  if b ≤ a then .ok (a - b) else .error .underflow

def satAdd (a b : Nat) : Nat := min (a + b) max

def satMul (a b : Nat) : Nat := min (a * b) max

/-- Lower-case hexadecimal with a leading `0x` and no padding. -/
def hex (a : Nat) : String := "0x" ++ String.ofList (Nat.toDigits 16 a)

/-- The value of a hexadecimal digit of either case. -/
def hexDigit? (c : Char) : Option Nat :=
  if '0' ≤ c && c ≤ '9' then some (c.toNat - '0'.toNat)
  else if 'a' ≤ c && c ≤ 'f' then some (c.toNat - 'a'.toNat + 10)
  else if 'A' ≤ c && c ≤ 'F' then some (c.toNat - 'A'.toNat + 10)
  else none

/-- The number that `hex` writes as `s`; padding and capitals are read too. -/
def ofHex? (s : String) : Option Nat :=
  match s.toList with
  | '0' :: 'x' :: d :: ds => (d :: ds).foldlM (fun n c => (16 * n + ·) <$> hexDigit? c) 0
  | _ => none

theorem add?_eq_ok {a b c : Nat} : add? a b = .ok c ↔ a + b < bound ∧ c = a + b := by
  unfold add?
  split
  · simp [*, eq_comm]
  · simp [*]

theorem add?_eq_error {a b : Nat} {p : Panic} (failed : add? a b = .error p) : p = .overflow := by
  unfold add? at failed
  split at failed
  · cases failed
  · cases failed
    rfl

theorem sub?_eq_ok {a b c : Nat} : sub? a b = .ok c ↔ b ≤ a ∧ c = a - b := by
  unfold sub?
  split
  · simp [*, eq_comm]
  · simp [*]

end Word

/-- The half-open range of the numbers from `first` on and before `stop`. -/
structure Span where
  first : Nat
  stop : Nat
deriving DecidableEq, Repr

namespace Span

def contains (r : Span) (n : Nat) : Bool := r.first ≤ n && n < r.stop

def length (r : Span) : Nat := r.stop - r.first

theorem contains_iff {r : Span} {n : Nat} : r.contains n = true ↔ r.first ≤ n ∧ n < r.stop := by
  simp [contains]

end Span

end Nucleus
