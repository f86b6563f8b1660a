import Nucleus.Frame.Basic

/-!
# Packed frame bitmaps

One bit per frame, 64 to a line, set while the frame is taken. `Bitmap.taken` is the view all
statements go through; a frame past the last line counts as taken.

* `taken_mark`, `taken_release`: marking and releasing a range change the view of exactly the
  frames of the range that the bitmap has.
* `taken_full`: a fresh bitmap has every frame taken.
-/

namespace Nucleus

structure Bitmap where
  lines : Array UInt64
deriving DecidableEq, Repr

namespace Bitmap

/-- The word whose lowest `k` bits are set, or all 64 from 64 on. -/
def lowBits (k : Nat) : UInt64 :=
  if k < 64 then (1 <<< k.toUInt64) - 1 else 0xffffffffffffffff

/-- The bits of line `j` that stand for frames of `[first, stop)`. -/
def lineMask (first stop j : Nat) : UInt64 :=
  lowBits (stop - 64 * j) &&& ~~~ lowBits (first - 64 * j)

/-- Every frame taken. -/
def full (lines : Nat) : Bitmap := ⟨Array.replicate lines 0xffffffffffffffff⟩

def capacity (b : Bitmap) : Nat := 64 * b.lines.size

def bit (w : UInt64) (i : Nat) : Bool := (w >>> i.toUInt64) &&& 1 != 0

def taken (b : Bitmap) (f : Nat) : Bool :=
  match b.lines[f / 64]? with
  | some w => bit w (f % 64)
  | none => true

/-- Take the frames of `[first, stop)`. -/
def mark (b : Bitmap) (first stop : Nat) : Bitmap :=
  ⟨b.lines.mapIdx fun j w => w ||| lineMask first stop j⟩

/-- Give the frames of `[first, stop)` back. -/
def release (b : Bitmap) (first stop : Nat) : Bitmap :=
  ⟨b.lines.mapIdx fun j w => w &&& ~~~ lineMask first stop j⟩

/-- How many of the `n` frames from `f` on are taken, added to `sum`. -/
def countFrom (b : Bitmap) : (n f sum : Nat) → Nat
  | 0, _, sum => sum
  | n + 1, f, sum => countFrom b n (f + 1) (if b.taken f then sum + 1 else sum)

/-- The number of taken frames in `r`. -/
def count (b : Bitmap) (r : Span) : Nat := b.countFrom r.length r.first 0

/-- Look through `left` frames from `f` on for the first run of `n` free ones, when the `run`
frames before `f` are free. -/
def searchFrom (b : Bitmap) (n : Nat) : (left f run : Nat) → Option Nat
  | 0, _, _ => none
  | left + 1, f, run =>
    if b.taken f then searchFrom b n left (f + 1) 0
    else if run + 1 = n then some (f + 1 - n)
    else searchFrom b n left (f + 1) (run + 1)

/-- The start of the first run of `n` free frames inside `r`. -/
def firstFit (b : Bitmap) (r : Span) (n : Nat) : Option Nat := b.searchFrom n r.length r.first 0

/-- Put frame `f` in front of runs that all start after it. -/
def consRun (f : Nat) : List (Nat × Nat) → List (Nat × Nat)
  | (s, c) :: rs => if s = f + 1 then (f, c + 1) :: rs else (f, 1) :: (s, c) :: rs
  | [] => [(f, 1)]

/-- The taken frames among the `n` from `first` on, as runs before those of `rs`. -/
def runsFrom (b : Bitmap) (first : Nat) : (n : Nat) → List (Nat × Nat) → List (Nat × Nat)
  | 0, rs => rs
  | n + 1, rs =>
    runsFrom b first n (if b.taken (first + n) then consRun (first + n) rs else rs)

/-- The taken frames of `r` as maximal runs `(start, length)`, in ascending order. -/
def runs (b : Bitmap) (r : Span) : List (Nat × Nat) := b.runsFrom r.first r.length []

/-! ## The view -/

theorem bit_eq (w : UInt64) {i : Nat} (hi : i < 64) : bit w i = w.toBitVec.getLsbD i := by
  have shift : (w >>> i.toUInt64).toNat = w.toNat >>> i := by
    rw [UInt64.toNat_shiftRight]
    have : i.toUInt64.toNat % 64 = i := by
      simp [Nat.toUInt64, UInt64.toNat_ofNat']
      omega
    rw [this]
  have one : ((w >>> i.toUInt64) &&& 1).toNat = (w.toNat >>> i) % 2 := by
    rw [UInt64.toNat_and, shift]
    simp [Nat.and_one_is_mod]
  unfold bit
  rw [BitVec.getLsbD, Nat.testBit, UInt64.toNat_toBitVec, Nat.one_and_eq_mod_two]
  have : (((w >>> i.toUInt64) &&& 1) != 0) = (((w >>> i.toUInt64) &&& 1).toNat != 0) := by
    simp [bne, ← UInt64.toNat_inj, BEq.beq]
  rw [this, one]

theorem lowBits_bit (k : Nat) {i : Nat} (hi : i < 64) : bit (lowBits k) i = decide (i < k) := by
  rw [bit_eq _ hi]
  unfold lowBits
  split
  · next hk =>
    have : ((1 <<< k.toUInt64 - 1 : UInt64)).toNat = 2 ^ k - 1 := by
      have h2 : 2 ^ k < 18446744073709551616 := by
        have : 2 ^ k < 2 ^ 64 := Nat.pow_lt_pow_right (by omega) hk
        simpa using this
      have hs : (1 <<< k.toUInt64 : UInt64).toNat = 2 ^ k := by
        rw [UInt64.toNat_shiftLeft]
        have : k.toUInt64.toNat % 64 = k := by
          simp [Nat.toUInt64, UInt64.toNat_ofNat']
          omega
        rw [this]
        simp [Nat.shiftLeft_eq, Nat.mod_eq_of_lt h2]
      rw [UInt64.toNat_sub_of_le _ _ (by
        rw [UInt64.le_iff_toNat_le, hs]
        exact Nat.one_le_two_pow), hs]
      rfl
    rw [BitVec.getLsbD, UInt64.toNat_toBitVec, this, Nat.testBit_two_pow_sub_one]
  · next hk =>
    have : (0xffffffffffffffff : UInt64).toNat = 2 ^ 64 - 1 := by decide
    rw [BitVec.getLsbD, UInt64.toNat_toBitVec, this, Nat.testBit_two_pow_sub_one]
    simp
    omega

theorem lineMask_bit (first stop : Nat) (f : Nat) :
    bit (lineMask first stop (f / 64)) (f % 64) = decide (first ≤ f ∧ f < stop) := by
  have hi : f % 64 < 64 := Nat.mod_lt _ (by omega)
  have a := lowBits_bit (stop - 64 * (f / 64)) hi
  have b := lowBits_bit (first - 64 * (f / 64)) hi
  rw [bit_eq _ hi] at a b ⊢
  unfold lineMask
  simp only [UInt64.toBitVec_and, UInt64.toBitVec_not, BitVec.getLsbD_and, BitVec.getLsbD_not, a, b]
  simp only [hi, decide_true, Bool.true_and]
  rw [← decide_not, ← Bool.decide_and, decide_eq_decide]
  omega

theorem capacity_mark (b : Bitmap) (first stop : Nat) :
    (b.mark first stop).capacity = b.capacity := by
  simp [mark, capacity]

theorem capacity_release (b : Bitmap) (first stop : Nat) :
    (b.release first stop).capacity = b.capacity := by
  simp [release, capacity]

theorem taken_of_capacity_le {b : Bitmap} {f : Nat} (h : b.capacity ≤ f) : b.taken f = true := by
  have : b.lines.size ≤ f / 64 := by
    simp only [capacity] at h
    omega
  simp [taken, Array.getElem?_eq_none this]

theorem taken_full (lines f : Nat) : (full lines).taken f = true := by
  unfold taken full
  simp only [Array.getElem?_replicate]
  split
  · next w h =>
    split at h
    · cases h
      have hi : f % 64 < 64 := Nat.mod_lt _ (by omega)
      have := lowBits_bit 64 hi
      simpa [lowBits, hi] using this
    · cases h
  · rfl

theorem taken_mark (b : Bitmap) (first stop f : Nat) :
    (b.mark first stop).taken f = (b.taken f || decide (first ≤ f ∧ f < stop)) := by
  have hi : f % 64 < 64 := Nat.mod_lt _ (by omega)
  have m := lineMask_bit first stop f
  unfold taken mark
  simp only [Array.getElem?_mapIdx]
  cases b.lines[f / 64]? with
  | none => simp
  | some w =>
    simp only [Option.map_some]
    rw [← m]
    simp only [bit_eq _ hi, UInt64.toBitVec_or, BitVec.getLsbD_or]

theorem taken_release (b : Bitmap) (first stop f : Nat) :
    (b.release first stop).taken f =
      (b.taken f && (decide (b.capacity ≤ f) || !decide (first ≤ f ∧ f < stop))) := by
  have hi : f % 64 < 64 := Nat.mod_lt _ (by omega)
  have m := lineMask_bit first stop f
  unfold taken release
  simp only [Array.getElem?_mapIdx]
  by_cases h : f / 64 < b.lines.size
  · have cap : ¬ b.capacity ≤ f := by
      simp only [capacity]
      omega
    simp only [h, getElem?_pos, Option.map_some, cap, decide_false, Bool.false_or]
    rw [← m]
    simp only [bit_eq _ hi, UInt64.toBitVec_and, UInt64.toBitVec_not, BitVec.getLsbD_and,
      BitVec.getLsbD_not, hi, decide_true, Bool.true_and]
  · have cap : b.capacity ≤ f := by
      simp only [capacity]
      omega
    simp [Array.getElem?_eq_none (Nat.le_of_not_lt h), cap]

end Bitmap

end Nucleus
