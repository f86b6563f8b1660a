import Mathlib.Order.Bounds.Defs
import Mathlib.Tactic.IntervalCases
import Nucleus.Proofs.Paging.Translation

/-!
# Addresses as words

The digits of an address are fields of a 64-bit word, and all that is done to the digits can be
done to the word by shifts and masks.

* `place`: where in the word the index at a level begins.
* `LinearWord`: the operations on addresses, on words.
* `getLsbD_setPart`: replacing an index changes its nine bits and no others.
* `bits_canonical`: an address is made canonical by extending the sign of its lower 48 bits.
* `setPart_eq`, `canonical_eq`, `ofParts_eq`, `advance_eq`: digits and words are treated alike.
* `isLeast_advance`: moving on leads to the first page behind the old one at which an entry of the
  level begins.
* `walk_arithmetic`: all of it together.
-/

namespace Nucleus
open Platform

/-! ## Words -/

namespace Linear

/-- The address with the given bits. -/
def ofBits (w : BitVec 64) : Linear := ofNat w.toNat

def bits (a : Linear) : BitVec 64 := BitVec.ofNat 64 a.toNat

/-- The lowest bit of the index at `level`. -/
def place (level : Nat) : Nat := 12 + 9 * (level - 1)

end Linear

namespace LinearWord
open Linear (place)

/-- The `width` bits from bit `low` on. -/
def field (w : BitVec 64) (low width : Nat) : BitVec 64 :=
  w >>> low &&& BitVec.ofNat 64 (2 ^ width - 1)

/-- The same word with `v` in the `width` bits from bit `low` on. -/
def setField (w : BitVec 64) (low width : Nat) (v : BitVec 64) : BitVec 64 :=
  let mask := BitVec.ofNat 64 (2 ^ width - 1)
  w &&& ~~~ (mask <<< low) ||| (v &&& mask) <<< low

def offset (w : BitVec 64) : BitVec 64 := field w 0 12

def part (w : BitVec 64) (level : Nat) : BitVec 64 :=
  if 0 < level ∧ level ≤ 4 then field w (place level) 9 else 0

def setPart (w : BitVec 64) (level : Nat) (v : BitVec 64) : BitVec 64 :=
  if 0 < level ∧ level ≤ 4 then setField w (place level) 9 (v % 512) else w

/-- Bit 47 is copied upwards by shifting it to the top and back. -/
def canonical (w : BitVec 64) : BitVec 64 := (w <<< 16).sshiftRight 16

def ofParts (pml4 pdpt pd pt : BitVec 64) (offset : BitVec 16) : BitVec 64 :=
  canonical ((pml4 &&& 0x1ff) <<< 39 ||| (pdpt &&& 0x1ff) <<< 30 ||| (pd &&& 0x1ff) <<< 21 |||
    (pt &&& 0x1ff) <<< 12 ||| offset.setWidth 64 &&& 0xfff)

/-- One is added to the index at `level`, and the lower ones are set to 0, from the lowest up. -/
def advance (w : BitVec 64) (level : Nat) : BitVec 64 :=
  (List.range' 1 (level - 1)).foldl (fun w l => setPart w l 0)
    (setPart w level (part w level + 1))

end LinearWord

/-! ## Digits and bits -/

namespace Linear
variable {a : Linear} {level : Nat}

theorem toNat_bits (a : Linear) : a.bits.toNat = a.toNat := by
  rw [bits, BitVec.toNat_ofNat]
  exact Nat.mod_eq_of_lt a.toNat_lt

theorem toNat_ofBits (w : BitVec 64) : (ofBits w).toNat = w.toNat := by
  rw [ofBits, toNat_ofNat]
  exact Nat.mod_eq_of_lt w.isLt

theorem bits_ofBits (w : BitVec 64) : (ofBits w).bits = w := by
  apply BitVec.eq_of_toNat_eq
  rw [toNat_bits, toNat_ofBits]

theorem ofBits_bits (a : Linear) : ofBits a.bits = a := by
  rw [ofBits, toNat_bits, ofNat_toNat]

theorem getLsbD_bits (a : Linear) (i : Nat) : a.bits.getLsbD i = a.toNat.testBit i := by
  rw [← toNat_bits, BitVec.getLsbD]

theorem bits_inj {a b : Linear} : a.bits = b.bits ↔ a = b := by
  constructor
  · intro same
    rw [← ofBits_bits a, same, ofBits_bits]
  · rintro rfl
    rfl

/-! ### Indices -/

theorem val_part (inner : 0 < level) (small : level ≤ 4) :
    (a.part level).val = a.toNat / 2 ^ place level % 2 ^ 9 := by
  obtain ⟨⟨o, ho⟩, ⟨t, ht⟩, ⟨d, hd⟩, ⟨p, hp⟩, ⟨m, hm⟩, ⟨s, hs⟩⟩ := a
  interval_cases level <;> simp only [part, toNat, place] <;> omega

theorem val_offset (a : Linear) : a.offset.val = a.toNat % 2 ^ 12 := by
  obtain ⟨⟨o, ho⟩, ⟨t, ht⟩, ⟨d, hd⟩, ⟨p, hp⟩, ⟨m, hm⟩, ⟨s, hs⟩⟩ := a
  simp only [toNat]
  omega

theorem val_sign (a : Linear) : a.sign.val = a.toNat / 2 ^ 48 := by
  obtain ⟨⟨o, ho⟩, ⟨t, ht⟩, ⟨d, hd⟩, ⟨p, hp⟩, ⟨m, hm⟩, ⟨s, hs⟩⟩ := a
  simp only [toNat]
  omega

theorem toNat_setPart (inner : 0 < level) (small : level ≤ 4) (v : Nat) :
    (a.setPart level v).toNat =
      2 ^ place level * (2 ^ 9 * (a.toNat / 2 ^ (place level + 9)) + v % 2 ^ 9) +
        a.toNat % 2 ^ place level := by
  obtain ⟨⟨o, ho⟩, ⟨t, ht⟩, ⟨d, hd⟩, ⟨p, hp⟩, ⟨m, hm⟩, ⟨s, hs⟩⟩ := a
  interval_cases level <;> simp only [setPart, toNat, Fin.ofNat, place] <;> omega

/-- Replacing an index changes its nine bits and no others. -/
theorem testBit_setPart (inner : 0 < level) (small : level ≤ 4) (v i : Nat) :
    (a.setPart level v).toNat.testBit i =
      if place level ≤ i ∧ i < place level + 9 then v.testBit (i - place level)
      else a.toNat.testBit i := by
  rw [toNat_setPart inner small,
    Nat.testBit_two_pow_mul_add _ (Nat.mod_lt _ (Nat.two_pow_pos _)),
    Nat.testBit_two_pow_mul_add _ (Nat.mod_lt _ (Nat.two_pow_pos _)),
    Nat.testBit_mod_two_pow, Nat.testBit_mod_two_pow, Nat.testBit_div_two_pow]
  by_cases below : i < place level
  · simp [below, Nat.not_le_of_lt below]
  · by_cases inside : i < place level + 9
    · have digit : i - place level < 9 := by omega
      simp [below, Nat.le_of_not_lt below, inside, digit]
    · have above : ¬i - place level < 9 := by omega
      have back : i - place level - 9 + (place level + 9) = i := by omega
      simp [below, inside, above, back]

theorem part_of_not_level (nowhere : ¬(0 < level ∧ level ≤ 4)) : a.part level = 0 := by
  unfold part
  split <;> first | rfl | omega

theorem setPart_of_not_level (nowhere : ¬(0 < level ∧ level ≤ 4)) (v : Nat) :
    a.setPart level v = a := by
  unfold setPart
  split <;> first | rfl | omega

theorem getLsbD_setPart (a : Linear) (level v i : Nat) :
    (a.setPart level v).bits.getLsbD i =
      if (0 < level ∧ level ≤ 4) ∧ place level ≤ i ∧ i < place level + 9
      then v.testBit (i - place level) else a.bits.getLsbD i := by
  by_cases here : 0 < level ∧ level ≤ 4
  · rw [getLsbD_bits, getLsbD_bits, testBit_setPart here.1 here.2]
    simp only [here, and_self, true_and]
  · rw [setPart_of_not_level here, if_neg fun inside => here inside.1]

/-! ### Canonical addresses -/

theorem testBit_top (a : Linear) : a.toNat.testBit 47 = decide (256 ≤ a.pml4.val) := by
  obtain ⟨⟨o, ho⟩, ⟨t, ht⟩, ⟨d, hd⟩, ⟨p, hp⟩, ⟨m, hm⟩, ⟨s, hs⟩⟩ := a
  rw [Nat.testBit_eq_decide_div_mod_eq, decide_eq_decide]
  simp only [toNat]
  omega

theorem toNat_canonical (a : Linear) : a.canonical.toNat =
    2 ^ 48 * (if a.toNat.testBit 47 then 2 ^ 16 - 1 else 0) + a.toNat % 2 ^ 48 := by
  have sign : a.canonical.sign.val = if a.toNat.testBit 47 then 2 ^ 16 - 1 else 0 := by
    simp only [testBit_top, canonical, decide_eq_true_eq]
    split <;> rfl
  rw [← sign]
  obtain ⟨⟨o, ho⟩, ⟨t, ht⟩, ⟨d, hd⟩, ⟨p, hp⟩, ⟨m, hm⟩, ⟨s, hs⟩⟩ := a
  simp only [canonical, toNat]
  omega

/-- An address is made canonical by extending the sign of its lower 48 bits. -/
theorem bits_canonical (a : Linear) : a.canonical.bits = (a.bits.setWidth 48).signExtend 64 := by
  apply BitVec.eq_of_getLsbD_eq
  intro i word
  have sign : (a.bits.setWidth 48).msb = a.toNat.testBit 47 := by
    rw [BitVec.msb_eq_getLsbD_last, BitVec.getLsbD_setWidth, getLsbD_bits]
    simp
  rw [getLsbD_bits, toNat_canonical,
    Nat.testBit_two_pow_mul_add _ (Nat.mod_lt _ (Nat.two_pow_pos _)), BitVec.getLsbD_signExtend,
    sign, BitVec.getLsbD_setWidth, getLsbD_bits, Nat.testBit_mod_two_pow]
  by_cases low : i < 48
  · simp [low, word]
  · have high : i - 48 < 16 := by omega
    have ones : Nat.testBit (2 ^ 16 - 1) (i - 48) = true := by
      rw [Nat.testBit_two_pow_sub_one, decide_eq_true high]
    cases a.toNat.testBit 47
    · simp [low]
    · simpa [low, word] using ones

/-- The address put together from the indices and the offset of another. -/
def recomposed (a : Linear) : Linear :=
  ofParts (a.part 4) (a.part 3) (a.part 2) (a.part 1) a.offset

theorem recomposed_eq (a : Linear) : a.recomposed = a.canonical := by
  simp only [recomposed, ofParts, part, canonical, Fin.ofNat_val_eq_self]

theorem recomposed_eq_self_iff (a : Linear) : a.recomposed = a ↔ a.isCanonical = true := by
  rw [recomposed_eq, isCanonical, decide_eq_true_iff, eq_comm]

/-- There is no index at level 0, so it makes no difference that it is not cleared. -/
theorem clearBelow_eq (a : Linear) (level : Nat) :
    a.clearBelow level = (List.range' 1 (level - 1)).foldl (fun a l => a.setPart l 0) a := by
  cases level with
  | zero => rfl
  | succ level =>
    rw [clearBelow, List.range_eq_range', List.range'_succ]
    rfl

end Linear

/-! ## Shifts and masks -/

namespace LinearWord
open Linear
variable {level low width : Nat}

theorem toNat_mask (narrow : width < 64) :
    (BitVec.ofNat 64 (2 ^ width - 1)).toNat = 2 ^ width - 1 := by
  have small : 2 ^ width < 2 ^ 64 := Nat.pow_lt_pow_right (by decide) narrow
  rw [BitVec.toNat_ofNat]
  exact Nat.mod_eq_of_lt (Nat.lt_of_le_of_lt (Nat.sub_le _ _) small)

theorem getLsbD_mask (narrow : width < 64) (i : Nat) :
    (BitVec.ofNat 64 (2 ^ width - 1)).getLsbD i = decide (i < width) := by
  rw [BitVec.getLsbD, toNat_mask narrow, Nat.testBit_two_pow_sub_one]

theorem toNat_field (narrow : width < 64) (w : BitVec 64) (low : Nat) :
    (field w low width).toNat = w.toNat / 2 ^ low % 2 ^ width := by
  rw [field, BitVec.toNat_and, toNat_mask narrow, BitVec.toNat_ushiftRight,
    Nat.and_two_pow_sub_one_eq_mod, Nat.shiftRight_eq_div_pow]

theorem getLsbD_setField (inside : low + width < 64) (w v : BitVec 64) (i : Nat) :
    (setField w low width v).getLsbD i =
      if low ≤ i ∧ i < low + width then v.getLsbD (i - low) else w.getLsbD i := by
  have narrow : width < 64 := by omega
  simp only [setField, BitVec.getLsbD_or, BitVec.getLsbD_and, BitVec.getLsbD_not,
    BitVec.getLsbD_shiftLeft, getLsbD_mask narrow]
  by_cases word : i < 64
  · by_cases below : i < low
    · simp [word, below, Nat.not_le_of_lt below]
    · by_cases field : i < low + width
      · have digit : i - low < width := by omega
        simp [word, below, Nat.le_of_not_lt below, field, digit]
      · have above : ¬i - low < width := by omega
        simp [word, below, field, above]
  · have past : ¬i < low + width := by omega
    simp [word, past, BitVec.getLsbD_of_ge w i (Nat.le_of_not_lt word)]

theorem offset_eq (w : BitVec 64) : (ofBits w).offset.val = (offset w).toNat := by
  rw [offset, toNat_field (by decide), val_offset, toNat_ofBits, Nat.pow_zero, Nat.div_one]

theorem part_eq (w : BitVec 64) (level : Nat) :
    ((ofBits w).part level).val = (part w level).toNat := by
  unfold part
  split
  · next here => rw [toNat_field (by decide), val_part here.1 here.2, toNat_ofBits]
  · next nowhere =>
    rw [part_of_not_level nowhere]
    rfl

theorem setPart_eq (w : BitVec 64) (level : Nat) (v : BitVec 64) :
    ((ofBits w).setPart level v.toNat).bits = setPart w level v := by
  unfold setPart
  split
  · next here =>
    apply BitVec.eq_of_getLsbD_eq
    intro i _
    have inside : place level + 9 < 64 := by
      simp only [place]
      omega
    have digit : (v % 512).toNat = v.toNat % 2 ^ 9 := BitVec.toNat_umod
    simp only [getLsbD_setPart, bits_ofBits, getLsbD_setField inside, here, and_self, true_and]
    split
    · next field =>
      have short : i - place level < 9 := by omega
      rw [BitVec.getLsbD, digit, Nat.testBit_mod_two_pow, decide_eq_true short, Bool.true_and]
    · rfl
  · next nowhere => rw [setPart_of_not_level nowhere, bits_ofBits]

/-- Shifted to the top and back, a word has its lower 48 bits with their sign extended. -/
theorem canonical_eq_signExtend (w : BitVec 64) :
    canonical w = (w.setWidth 48).signExtend 64 := by
  apply BitVec.eq_of_getLsbD_eq
  intro i word
  have sign : (w.setWidth 48).msb = w.getLsbD 47 := by
    rw [BitVec.msb_eq_getLsbD_last, BitVec.getLsbD_setWidth]
    simp
  have top : (w <<< 16).msb = w.getLsbD 47 := by
    rw [BitVec.msb_eq_getLsbD_last, BitVec.getLsbD_shiftLeft]
    simp
  rw [canonical, BitVec.getLsbD_sshiftRight, BitVec.getLsbD_signExtend, sign, top,
    BitVec.getLsbD_shiftLeft, BitVec.getLsbD_setWidth]
  by_cases low : i < 48
  · have back : 16 + i < 64 := by omega
    simp [word, low, back]
  · have gone : ¬16 + i < 64 := by omega
    simp [word, low, gone]

theorem canonical_eq (w : BitVec 64) : (ofBits w).canonical.bits = canonical w := by
  rw [bits_canonical, bits_ofBits, canonical_eq_signExtend]

theorem isCanonical_eq (w : BitVec 64) : (ofBits w).isCanonical = (w == canonical w) := by
  rw [← canonical_eq, isCanonical, Bool.eq_iff_iff, decide_eq_true_iff, beq_iff_eq]
  conv_rhs => rw [← bits_ofBits w]
  rw [ofBits_bits, bits_inj]

theorem digit_lt (low width n : Nat) : 2 ^ low * (n % 2 ^ width) < 2 ^ (low + width) := by
  rw [Nat.pow_add]
  exact Nat.mul_lt_mul_of_pos_left (Nat.mod_lt _ (Nat.two_pow_pos _)) (Nat.two_pow_pos _)

/-- A digit is put behind a number by adding its bits to those of the number moved up. -/
theorem or_digit (low width m n : Nat) :
    2 ^ (low + width) * m ||| 2 ^ low * (n % 2 ^ width) =
      2 ^ low * (2 ^ width * m + n % 2 ^ width) := by
  rw [← Nat.two_pow_add_eq_or_of_lt (digit_lt low width n), Nat.pow_add, Nat.mul_assoc,
    ← Nat.mul_add]

/-- The lowest bits of a word, moved up. -/
theorem toNat_moved (w : BitVec 64) (width : Nat) (inside : low + width < 64) :
    ((w &&& BitVec.ofNat 64 (2 ^ width - 1)) <<< low).toNat = 2 ^ low * (w.toNat % 2 ^ width) := by
  have fits : 2 ^ low * (w.toNat % 2 ^ width) < 2 ^ 64 :=
    Nat.lt_trans (digit_lt low width _) (Nat.pow_lt_pow_right (by decide) inside)
  rw [BitVec.toNat_shiftLeft, BitVec.toNat_and, toNat_mask (by omega),
    Nat.and_two_pow_sub_one_eq_mod, Nat.shiftLeft_eq, Nat.mul_comm]
  exact Nat.mod_eq_of_lt fits

/-- The bits that the indices and the offset of an address are put together from. -/
theorem toNat_parts (pml4 pdpt pd pt : BitVec 64) (offset : BitVec 16) :
    ((pml4 &&& 0x1ff) <<< 39 ||| (pdpt &&& 0x1ff) <<< 30 ||| (pd &&& 0x1ff) <<< 21 |||
        (pt &&& 0x1ff) <<< 12 ||| offset.setWidth 64 &&& 0xfff).toNat =
      2 ^ 12 * (2 ^ 9 * (2 ^ 9 * (2 ^ 9 * (pml4.toNat % 2 ^ 9) + pdpt.toNat % 2 ^ 9) +
        pd.toNat % 2 ^ 9) + pt.toNat % 2 ^ 9) + offset.toNat % 2 ^ 12 := by
  have index (v : BitVec 64) (low : Nat) (inside : low + 9 < 64) :
      ((v &&& 0x1ff) <<< low).toNat = 2 ^ low * (v.toNat % 2 ^ 9) :=
    toNat_moved v 9 inside
  have last : (offset.setWidth 64 &&& 0xfff).toNat = 2 ^ 0 * (offset.toNat % 2 ^ 12) := by
    have word : offset.toNat < 2 ^ 64 := Nat.lt_trans offset.isLt (by decide)
    have mask : (0xfff : BitVec 64).toNat = 2 ^ 12 - 1 := rfl
    rw [BitVec.toNat_and, mask, Nat.and_two_pow_sub_one_eq_mod, BitVec.toNat_setWidth,
      Nat.mod_eq_of_lt word, Nat.pow_zero, Nat.one_mul]
  simp only [BitVec.toNat_or, last]
  rw [index pml4 39 (by decide), index pdpt 30 (by decide), index pd 21 (by decide),
    index pt 12 (by decide), or_digit 30 9, or_digit 21 9, or_digit 12 9, or_digit 0 12,
    Nat.pow_zero, Nat.one_mul]

theorem ofParts_eq (pml4 pdpt pd pt : BitVec 64) (offset : BitVec 16) :
    (Linear.ofParts pml4.toNat pdpt.toNat pd.toNat pt.toNat offset.toNat).bits =
      ofParts pml4 pdpt pd pt offset := by
  rw [ofParts, ← canonical_eq, Linear.ofParts, ofBits, toNat_parts]
  congr 2
  simp only [Linear.ofNat, Fin.ofNat, Linear.mk.injEq, Fin.ext_iff, Fin.val_zero]
  omega

theorem advance_eq (w : BitVec 64) (level : Nat) :
    ((ofBits w).advance level).bits = advance w level := by
  have next : (part w level + 1).toNat = (ofBits w).part level + 1 := by
    have one : (1 : BitVec 64).toNat = 1 := rfl
    rw [BitVec.toNat_add, ← part_eq, one]
    exact Nat.mod_eq_of_lt (by omega)
  have first : (ofBits w).setPart level ((ofBits w).part level + 1) =
      ofBits (setPart w level (part w level + 1)) := by
    rw [← setPart_eq, ofBits_bits, next]
  have zero (u : BitVec 64) (l : Nat) : (ofBits u).setPart l 0 = ofBits (setPart u l 0) := by
    rw [← setPart_eq, ofBits_bits]
    rfl
  -- both fold over the same levels, so what holds of one step holds of all of them
  rw [Linear.advance, first, clearBelow_eq, List.foldl_hom ofBits zero, bits_ofBits, advance]

end LinearWord

/-! ## Moving on -/

namespace Linear
variable {a : Linear} {level : Nat} (inner : 0 < level) (small : level ≤ 4)
  (room : (a.part level).val < 511)
include inner small room

theorem toNat_advance : (a.advance level).toNat =
    2 ^ place level * (a.toNat / 2 ^ place level + 1) + a.toNat % 2 ^ 12 := by
  obtain ⟨⟨o, ho⟩, ⟨t, ht⟩, ⟨d, hd⟩, ⟨p, hp⟩, ⟨m, hm⟩, ⟨s, hs⟩⟩ := a
  interval_cases level <;> simp only [part] at room <;>
    simp only [advance, clearBelow, List.range, List.range.loop, List.foldl, setPart, part, toNat,
      Fin.ofNat, place] <;>
    omega

/-- The lower 48 bits are rounded down and go up by one step, with the offset kept. -/
theorem low_advance : (a.advance level).toNat % reach =
    a.toNat % reach / 2 ^ place level * 2 ^ place level + 2 ^ place level + a.offset := by
  have moved := toNat_advance inner small room
  rw [val_part inner small] at room
  rw [moved, val_offset, reach]
  interval_cases level <;> simp only [place] at room ⊢ <;> omega

theorem sign_advance : (a.advance level).sign = a.sign := by
  have moved := toNat_advance inner small room
  rw [val_part inner small] at room
  apply Fin.ext
  rw [val_sign, val_sign, moved]
  interval_cases level <;> simp only [place] at room ⊢ <;> omega

theorem offset_advance : (a.advance level).offset = a.offset := by
  apply Fin.ext
  rw [val_offset, val_offset, toNat_advance inner small room]
  interval_cases level <;> simp only [place] <;> omega

theorem pageOf_advance : pageOf (a.advance level).toNat * frameBytes =
    a.toNat % reach / 2 ^ place level * 2 ^ place level + 2 ^ place level := by
  have offset : a.offset.val < 2 ^ 12 := a.offset.isLt
  rw [pageOf, low_advance inner small room, frameBytes]
  interval_cases level <;> simp only [place] <;> omega

/-- The page that is reached is the first one behind the old page where an entry begins. -/
theorem isLeast_advance :
    IsLeast {p | pageOf a.toNat < p ∧ 2 ^ place level ∣ p * frameBytes}
      (pageOf (a.advance level).toNat) := by
  have reached := pageOf_advance inner small room
  have frame : 0 < frameBytes := by decide
  constructor
  · constructor
    · rw [pageOf, Nat.div_lt_iff_lt_mul frame, reached]
      exact Nat.lt_div_mul_add (Nat.two_pow_pos _)
    · rw [reached]
      exact Nat.dvd_add (Nat.dvd_mul_left ..) (Nat.dvd_refl _)
  · -- a later page where an entry begins is a whole number of steps from 0, and more than the old
    -- one rounded down
    rintro p ⟨behind, c, starts⟩
    rw [pageOf, Nat.div_lt_iff_lt_mul frame, starts] at behind
    have entry : a.toNat % reach / 2 ^ place level < c := Nat.div_lt_of_lt_mul behind
    apply Nat.le_of_mul_le_mul_right _ frame
    calc pageOf (a.advance level).toNat * frameBytes
      _ = (a.toNat % reach / 2 ^ place level + 1) * 2 ^ place level := by
          rw [reached, Nat.succ_mul]
      _ ≤ c * 2 ^ place level := Nat.mul_le_mul_right _ entry
      _ = p * frameBytes := by rw [starts, Nat.mul_comm]

end Linear

/-! ## All of it -/

namespace Linear

/-- What is done to the digits of an address is done to its word by shifts and masks. -/
structure Wordwise (w : BitVec 64) : Prop where
  bits : (ofBits w).bits = w
  offset : ((ofBits w).offset : Nat) = (LinearWord.offset w).toNat
  part : ∀ level, ((ofBits w).part level : Nat) = (LinearWord.part w level).toNat
  setPart : ∀ level v,
    ((ofBits w).setPart level v.toNat).bits = LinearWord.setPart w level v
  canonical : (ofBits w).canonical.bits = LinearWord.canonical w
  isCanonical : (ofBits w).isCanonical = (w == LinearWord.canonical w)
  advance : ∀ level, ((ofBits w).advance level).bits = LinearWord.advance w level

/-- `a` is put together from the given indices and offset, of which the lowest bits count. -/
structure Composes (pml4 pdpt pd pt : BitVec 64) (offset : BitVec 16) (a : Linear) : Prop where
  bits : a.bits = LinearWord.ofParts pml4 pdpt pd pt offset
  pml4 : (a.part 4 : Nat) = pml4.toNat % 512
  pdpt : (a.part 3 : Nat) = pdpt.toNat % 512
  pd : (a.part 2 : Nat) = pd.toNat % 512
  pt : (a.part 1 : Nat) = pt.toNat % 512
  offset : (a.offset : Nat) = offset.toNat % 4096

/-- `b` is one entry at `level` behind `a`. -/
structure Succeeds (level : Nat) (a b : Linear) : Prop where
  /-- Its page is the first one behind that of `a` at which an entry begins. -/
  page : IsLeast {p | pageOf a.toNat < p ∧ 2 ^ place level ∣ p * frameBytes} (pageOf b.toNat)
  low : b.toNat % reach =
    a.toNat % reach / 2 ^ place level * 2 ^ place level + 2 ^ place level + a.offset
  offset : b.offset = a.offset
  sign : b.sign = a.sign

theorem wordwise (w : BitVec 64) : Wordwise w where
  bits := bits_ofBits w
  offset := LinearWord.offset_eq w
  part := LinearWord.part_eq w
  setPart := LinearWord.setPart_eq w
  canonical := LinearWord.canonical_eq w
  isCanonical := LinearWord.isCanonical_eq w
  advance := LinearWord.advance_eq w

theorem composes_ofParts (pml4 pdpt pd pt : BitVec 64) (offset : BitVec 16) :
    Composes pml4 pdpt pd pt offset
      (ofParts pml4.toNat pdpt.toNat pd.toNat pt.toNat offset.toNat) where
  bits := LinearWord.ofParts_eq pml4 pdpt pd pt offset
  pml4 := rfl
  pdpt := rfl
  pd := rfl
  pt := rfl
  offset := rfl

theorem succeeds_advance {a : Linear} {level : Nat} (inner : 0 < level) (small : level ≤ 4)
    (room : (a.part level).val < 511) : Succeeds level a (a.advance level) where
  page := isLeast_advance inner small room
  low := low_advance inner small room
  offset := offset_advance inner small room
  sign := sign_advance inner small room

/-- Addresses are put together, changed and walked along by their digits, and bit by bit just so.
From its own indices an address comes out with the sign of its lower 48 bits extended. An index is
replaced without any bit outside its nine. Where an index has room, moving on leads to the first
page behind at which an entry of that level begins. -/
theorem walk_arithmetic :
    (∀ w, Wordwise w) ∧
    (∀ a : Linear, a.recomposed = a.canonical ∧ (a.recomposed = a ↔ a.isCanonical = true) ∧
      a.canonical.bits = (a.bits.setWidth 48).signExtend 64) ∧
    (∀ pml4 pdpt pd pt offset, Composes pml4 pdpt pd pt offset
      (ofParts pml4.toNat pdpt.toNat pd.toNat pt.toNat offset.toNat)) ∧
    (∀ (a : Linear) (level v i : Nat), (a.setPart level v).bits.getLsbD i =
      if (0 < level ∧ level ≤ 4) ∧ place level ≤ i ∧ i < place level + 9
      then v.testBit (i - place level) else a.bits.getLsbD i) ∧
    (∀ (a : Linear) (level : Nat), 0 < level → level ≤ 4 → (a.part level).val < 511 →
      Succeeds level a (a.advance level)) := by
  refine ⟨wordwise, fun a => ⟨recomposed_eq a, recomposed_eq_self_iff a, bits_canonical a⟩,
    composes_ofParts, getLsbD_setPart, ?_⟩
  intro a level inner small room
  exact succeeds_advance inner small room

theorem walk_arithmetic_at_edge :
    0 < 3 ∧ 3 ≤ 4 ∧ ((ofBits 0xffff80003ffffabc).part 3).val < 511 ∧
      Succeeds 3 (ofBits 0xffff80003ffffabc) (ofBits 0xffff800040000abc) := by
  have room : ((ofBits 0xffff80003ffffabc).part 3).val < 511 := by decide
  have moved : (ofBits 0xffff80003ffffabc).advance 3 = ofBits 0xffff800040000abc := by decide
  refine ⟨by decide, by decide, room, ?_⟩
  rw [← moved]
  exact walk_arithmetic.2.2.2.2 _ 3 (by decide) (by decide) room

end Linear

end Nucleus
