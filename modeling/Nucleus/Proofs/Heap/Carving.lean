import Mathlib.Algebra.GroupWithZero.Nat
import Nucleus.Heap.Basic
import Nucleus.Proofs.Heap.Intervals

/-!
# Carving

What a request takes out of the free list, and what it puts back.

* `Layout`: what can be asked for.
* `allocate_spec`: a request is turned down and changes nothing, or its bytes are cut out of the
  first block that has room.
* `tidy_putBack`, `covers_putBack`, `bytes_putBack`: what is left of that block.
-/

namespace Nucleus

/-- A size and an alignment, within the limits that the language sets. -/
structure Layout where
  size : Nat
  align : Nat
  power : ∃ k, align = 2 ^ k
  fits : size + align ≤ 2 ^ 63
deriving DecidableEq

namespace FreeList

/-- Insert the addresses of `[p, q)`, if there are any. -/
def insertBetween (p q : Nat) (bs : List Block) : List Block :=
  if p < q then insert ⟨p, q - p⟩ bs else bs

theorem putBack_eq (b : Block) (p q : Nat) (bs : List Block) :
    putBack b p q bs = insertBetween q b.stop (insertBetween b.start p bs) := rfl

/-! ## Rounding -/

theorem alignUp?_pow {a k : Nat} (small : a + 2 ^ k ≤ Word.bound) :
    ∃ p, alignUp? a (2 ^ k) = .ok p ∧ a ≤ p ∧ p < a + 2 ^ k ∧ 2 ^ k ∣ p := by
  have positive : 0 < 2 ^ k := Nat.two_pow_pos k
  let s := a + (2 ^ k - 1)
  have below : s % 2 ^ k < 2 ^ k := Nat.mod_lt s positive
  have counted : Word.add? a (2 ^ k - 1) = .ok s := Word.add?_eq_ok.mpr ⟨by omega, rfl⟩
  refine ⟨s - s % 2 ^ k, ?_, by omega, by omega, Nat.dvd_sub_mod s⟩
  rw [alignUp?, counted, ← Nat.and_two_pow_sub_one_eq_mod]
  rfl

theorem alignUp?_granule {a : Nat} (small : a + granule ≤ Word.bound) :
    alignUp? a granule = .ok ((a + (granule - 1)) / granule * granule) := by
  have counted : Word.add? a (granule - 1) = .ok (a + (granule - 1)) :=
    Word.add?_eq_ok.mpr ⟨Nat.lt_of_lt_of_le (Nat.add_lt_add_left (by decide) a) small, rfl⟩
  rw [alignUp?, counted, ← alignDown_granule]
  rfl

/-- The bytes set aside for a request of `n` bytes. -/
def blockSize (n : Nat) : Nat := (max n 1 + (granule - 1)) / granule * granule

theorem blockSize?_eq {n : Nat} (small : n ≤ 2 ^ 63) : blockSize? n = .ok (blockSize n) := by
  apply alignUp?_granule
  simp only [granule, Word.bound]
  omega

theorem granule_dvd_blockSize (n : Nat) : granule ∣ blockSize n := Nat.dvd_mul_left _ _

theorem blockSize_pos (n : Nat) : 0 < blockSize n := by
  simp only [blockSize, granule]
  omega

/-- Requests are placed at multiples of a power of two that is good for both. -/
theorem exists_pow_max (y : Layout) :
    ∃ k, max y.align granule = 2 ^ k ∧ 2 ^ k ≤ 2 ^ 63 ∧ y.align ∣ 2 ^ k ∧ granule ∣ 2 ^ k := by
  obtain ⟨k, power⟩ := y.power
  have fits := y.fits
  rcases Nat.le_total k 4 with le | le
  · have small : 2 ^ k ≤ granule := Nat.pow_le_pow_right (by decide) le
    refine ⟨4, ?_, by decide, ?_, Nat.dvd_refl _⟩
    · rw [power]
      exact Nat.max_eq_right small
    · rw [power]
      exact Nat.pow_dvd_pow 2 le
  · have large : granule ≤ 2 ^ k := Nat.pow_le_pow_right (n := 2) (by decide) le
    refine ⟨k, ?_, by omega, ⟨1, ?_⟩, Nat.pow_dvd_pow 2 le⟩
    · rw [power]
      exact Nat.max_eq_left large
    · rw [power, Nat.mul_one]

/-! ## Finding a place -/

/-- There is room in the block for `size` bytes from `q` on, a multiple of `align`. -/
structure Room (b : Block) (size align q : Nat) : Prop where
  aligned : align ∣ q
  start : b.start ≤ q
  stop : q + size ≤ b.stop

variable {b : Block} {bs : List Block} {k p q : Nat}

/-- A block is asked for its least place alone, and no other would do where that one does not. -/
theorem place?_spec (size : Nat) (low : b.stop ≤ 2 ^ 63) (power : 2 ^ k ≤ 2 ^ 63) :
    (place? b size (2 ^ k) = .ok none ∧ ∀ q, ¬ Room b size (2 ^ k) q) ∨
    ∃ p, place? b size (2 ^ k) = .ok (some p) ∧ Room b size (2 ^ k) p ∧
      ∀ q, Room b size (2 ^ k) q → p ≤ q := by
  have start : b.start ≤ b.stop := Nat.le_add_right _ _
  have small : b.start + 2 ^ k ≤ Word.bound := by
    rw [Word.bound]
    omega
  obtain ⟨p, rounded, above, next, multiple⟩ := alignUp?_pow small
  have placed : place? b size (2 ^ k) =
      .ok (if Word.satAdd p size ≤ b.stop then some p else none) := by
    rw [place?, rounded]
    rfl
  have least (q : Nat) (room : Room b size (2 ^ k) q) : p ≤ q := by
    obtain ⟨i, rfl⟩ := multiple
    obtain ⟨j, rfl⟩ := room.aligned
    have first := room.start
    have less : 2 ^ k * i < 2 ^ k * (j + 1) := by
      rw [Nat.mul_add_one]
      omega
    exact Nat.mul_le_mul_left _ (Nat.le_of_lt_succ (Nat.lt_of_mul_lt_mul_left less))
  rw [placed]
  split
  · next fits =>
    refine .inr ⟨p, rfl, ⟨multiple, above, ?_⟩, least⟩
    rw [Word.satAdd, Word.max, Word.bound] at fits
    omega
  · next full =>
    refine .inl ⟨rfl, fun q room => full ?_⟩
    have before := least q room
    have stop := room.stop
    exact Nat.le_trans (Nat.min_le_left _ _) (by omega)

/-- The blocks are asked in order. -/
theorem find?_spec (size : Nat) (power : 2 ^ k ≤ 2 ^ 63) :
    ∀ bs : List Block, (∀ b ∈ bs, b.stop ≤ 2 ^ 63) →
    (find? size (2 ^ k) bs = .ok none ∧ ∀ b ∈ bs, ∀ q, ¬ Room b size (2 ^ k) q) ∨
    ∃ p b front back,
      find? size (2 ^ k) bs = .ok (some (p, b, front ++ back)) ∧ bs = front ++ b :: back ∧
        Room b size (2 ^ k) p ∧ (∀ c ∈ front, ∀ q, ¬ Room c size (2 ^ k) q) ∧
        ∀ q, Room b size (2 ^ k) q → p ≤ q := by
  intro bs
  induction bs with
  | nil => exact fun _ => .inl ⟨rfl, List.forall_mem_nil _⟩
  | cons b bs ih =>
    intro low
    obtain ⟨first, rest⟩ := List.forall_mem_cons.mp low
    rcases place?_spec size first power with ⟨none, full⟩ | ⟨p, placed, room, least⟩
    · rcases ih rest with ⟨nothing, full'⟩ | ⟨p, c, front, back, found, rfl, room, full', least⟩
      · refine .inl ⟨?_, List.forall_mem_cons.mpr ⟨full, full'⟩⟩
        rw [find?, none]
        simp only [bind, Except.bind, nothing]
        rfl
      · refine .inr ⟨p, c, b :: front, back, ?_, rfl, room,
          List.forall_mem_cons.mpr ⟨full, full'⟩, least⟩
        rw [find?, none]
        simp only [bind, Except.bind, found]
        rfl
    · refine .inr ⟨p, b, [], bs, ?_, rfl, room, List.forall_mem_nil _, least⟩
      rw [find?, placed]
      rfl

/-- A request is turned down, or its bytes are cut out of the first block of the list that has room
for them, and as far down in it as can be. -/
theorem allocate_spec (l : FreeList) (y : Layout) (low : ∀ b ∈ l.blocks, b.stop ≤ 2 ^ 63) :
    (l.allocate y.size y.align = .ok (none, l) ∧
      ∀ b ∈ l.blocks, ∀ q, ¬ Room b (blockSize y.size) (max y.align granule) q) ∨
    ∃ p b front back, l.blocks = front ++ b :: back ∧
      l.allocate y.size y.align = .ok (some p,
        { l with blocks := putBack b p (p + blockSize y.size) (front ++ back) }) ∧
      Room b (blockSize y.size) (max y.align granule) p ∧
      (∀ c ∈ front, ∀ q, ¬ Room c (blockSize y.size) (max y.align granule) q) ∧
      ∀ q, Room b (blockSize y.size) (max y.align granule) q → p ≤ q := by
  have fits := y.fits
  have sized : blockSize? y.size = .ok (blockSize y.size) := blockSize?_eq (by omega)
  obtain ⟨k, power, small, -, -⟩ := exists_pow_max y
  rw [power]
  rcases find?_spec (blockSize y.size) small l.blocks low with
    ⟨none, full⟩ | ⟨p, b, front, back, found, split, room, full, least⟩
  · refine .inl ⟨?_, full⟩
    rw [allocate, sized, power]
    simp only [bind, Except.bind, none]
    rfl
  · refine .inr ⟨p, b, front, back, split, ?_, room, full, least⟩
    rw [allocate, sized, power]
    simp only [bind, Except.bind, found]
    rfl

/-! ## What is left of a block -/

theorem covers_insertBetween (p q : Nat) (bs : List Block) (a : Nat) :
    Covers (insertBetween p q bs) a ↔ p ≤ a ∧ a < q ∨ Covers bs a := by
  rw [insertBetween]
  split
  · next some => rw [covers_insert, Block.has_between (Nat.le_of_lt some)]
  · next none => exact ⟨.inr, fun here => here.resolve_left (by omega)⟩

theorem tidy_insertBetween (whole : granule ∣ p) (whole' : granule ∣ q) (tidy : Tidy bs)
    (new : ∀ a, p ≤ a → a < q → ¬ Covers bs a) : Tidy (insertBetween p q bs) := by
  rw [insertBetween]
  split
  · next some =>
    refine tidy_insert (.between some whole whole') tidy fun a here => ?_
    rw [Block.has_between (Nat.le_of_lt some)] at here
    exact new a here.1 here.2
  · exact tidy

theorem bytes_insertBetween (p q : Nat) (bs : List Block) :
    bytes (insertBetween p q bs) = q - p + bytes bs := by
  rw [insertBetween]
  split
  · exact bytes_insert _ bs
  · omega

theorem covers_putBack (start : b.start ≤ p) (less : p < q) (stop : q ≤ b.stop) (bs : List Block)
    (a : Nat) : Covers (putBack b p q bs) a ↔ b.Has a ∧ ¬ (p ≤ a ∧ a < q) ∨ Covers bs a := by
  rw [putBack_eq, covers_insertBetween, covers_insertBetween, ← or_assoc]
  refine or_congr ?_ Iff.rfl
  unfold Block.Has
  omega

theorem bytes_putBack (start : b.start ≤ p) (less : p < q) (stop : q ≤ b.stop) (bs : List Block) :
    bytes (putBack b p q bs) + (q - p) = b.size + bytes bs := by
  rw [putBack_eq, bytes_insertBetween, bytes_insertBetween]
  unfold Block.stop at *
  omega

section
variable {front back : List Block}

theorem Tidy.middle (tidy : Tidy (front ++ b :: back)) : b.Whole ∧ Tidy (front ++ back) := by
  constructor
  · exact tidy.whole b (List.mem_append.mpr (.inr (.head back)))
  · exact tidy.sublist ((List.Sublist.refl front).append (List.sublist_cons_self b back))

theorem tidy_putBack (tidy : Tidy (front ++ b :: back)) (start : b.start ≤ p) (less : p < q)
    (stop : q ≤ b.stop) (whole : granule ∣ p) (whole' : granule ∣ q) :
    Tidy (insertBetween b.start p (front ++ back)) ∧ Tidy (putBack b p q (front ++ back)) := by
  obtain ⟨ok, rest⟩ := tidy.middle
  -- what goes back lay in `b`, and no other block of the list has an address of `b`
  have gap : Tidy (insertBetween b.start p (front ++ back)) := by
    refine tidy_insertBetween ok.start whole rest fun a low high => ?_
    exact tidy.not_covers ⟨low, by omega⟩
  refine ⟨gap, ?_⟩
  rw [putBack_eq]
  refine tidy_insertBetween whole' ok.stop gap fun a low high => ?_
  rw [covers_insertBetween]
  rintro (early | other)
  · omega
  · exact tidy.not_covers ⟨by omega, high⟩ other

theorem bytes_middle (front : List Block) :
    bytes (front ++ b :: bs) = b.size + bytes (front ++ bs) := by
  induction front with
  | nil => rfl
  | cons c front ih =>
    rw [List.cons_append, bytes, ih, List.cons_append, bytes]
    omega

end

end FreeList

end Nucleus
