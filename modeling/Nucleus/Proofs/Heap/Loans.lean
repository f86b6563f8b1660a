import Nucleus.Proofs.Heap.Headers

/-!
# Loans

A heap is given its region, and from then on blocks of it are lent and given back in any order. The
free list stands for what is not lent, and for nothing else.

* `Lent`: what a heap can come to, with the blocks that are out.
* `balanced_serve`, `balanced_deallocate`, `balanced_reallocate`: what one call comes to.
* `noted_serve`, `noted_deallocate`, `noted_reallocate`: the headers that it writes.
* `lent_balanced`: what holds after every call.
* `free_list_is_complement`: so what is out determines the free list.
-/

namespace Nucleus

/-- A block that is out, and what was asked for. -/
structure Loan where
  address : Nat
  layout : Layout
deriving DecidableEq

/-- The bytes that are set aside for a loan. -/
def Loan.block (k : Loan) : Block := ⟨k.address, FreeList.blockSize k.layout.size⟩

namespace FreeList

/-- What a heap can come to that was given the `size` bytes from `start` on: the loans that are
out, and its free list. Requests for zeroed memory are served like others. -/
inductive Lent (start size : Nat) : List Loan → FreeList → Prop where
  | init {l : FreeList} : empty.init start size = .ok l → Lent start size [] l
  | allocate {live : List Loan} {l l' : FreeList} {p : Nat} (y : Layout) :
      Lent start size live l → l.serve y.size y.align = .ok (some p, l') →
      Lent start size (⟨p, y⟩ :: live) l'
  | full {live : List Loan} {l l' : FreeList} (y : Layout) :
      Lent start size live l → l.serve y.size y.align = .ok (none, l') → Lent start size live l'
  | deallocate {live rest : List Loan} {l l' : FreeList} {k : Loan} :
      Lent start size live l → live.Perm (k :: rest) →
      l.deallocate (some k.address) k.layout.size = .ok l' → Lent start size rest l'
  | reallocate {live rest : List Loan} {l l' : FreeList} {k : Loan} {q : Nat} (y : Layout) :
      Lent start size live l → live.Perm (k :: rest) → y.align = k.layout.align →
      l.reallocate k.address k.layout.size k.layout.align y.size = .ok (some q, l') →
      Lent start size (⟨q, y⟩ :: rest) l'
  | stay {live rest : List Loan} {l l' : FreeList} {k : Loan} (y : Layout) :
      Lent start size live l → live.Perm (k :: rest) → y.align = k.layout.align →
      l.reallocate k.address k.layout.size k.layout.align y.size = .ok (none, l') →
      Lent start size live l'

/-- The whole granules of a region. -/
def trimmed (start size : Nat) : Span :=
  ⟨(start + (granule - 1)) / granule * granule, (start + size) / granule * granule⟩

/-- Address `a` lies in the region `r` and in no loan. -/
def Unlent (r : Span) (live : List Loan) (a : Nat) : Prop :=
  r.first ≤ a ∧ a < r.stop ∧ ∀ k ∈ live, ¬ k.block.Has a

/-- The free list has all of the region `r` that is not lent. -/
structure Balanced (r : Span) (live : List Loan) (l : FreeList) : Prop where
  ready : l.ready = true
  tidy : Tidy l.blocks
  free : ∀ a, Covers l.blocks a ↔ Unlent r live a
  /-- Loans lie in the region, clear of each other, where they were asked for. -/
  inside : ∀ k ∈ live, r.first ≤ k.address ∧ k.block.stop ≤ r.stop
  apart : live.Pairwise fun k m => k.block.Clear m.block
  aligned : ∀ k ∈ live, k.layout.align ∣ k.address ∧ granule ∣ k.address
  bytes : l.freeBytes + (live.map fun k => k.block.size).sum = r.length

variable {start size : Nat} {r : Span} {live rest : List Loan} {l : FreeList} {k : Loan}

/-! ## One call -/

theorem init_eq (low : start + size < 2 ^ 63) : empty.init start size =
    .ok ⟨insertBetween (trimmed start size).first (trimmed start size).stop [], true⟩ := by
  have small : start + granule ≤ Word.bound := by
    rw [granule, Word.bound]
    omega
  have whole : Word.satAdd start size = start + size := by
    rw [Word.satAdd, Word.max, Word.bound]
    omega
  rw [init, alignUp?_granule small, whole, alignDown_granule]
  rfl

theorem balanced_init (start size : Nat) : Balanced (trimmed start size) []
    ⟨insertBetween (trimmed start size).first (trimmed start size).stop [], true⟩ := by
  refine ⟨rfl, ?tidy, fun a => ?free, ?inside, .nil, ?aligned, ?bytes⟩
  case tidy =>
    refine tidy_insertBetween (Nat.dvd_mul_left _ _) (Nat.dvd_mul_left _ _) .nil fun a _ _ => ?_
    exact covers_nil
  case free =>
    rw [covers_insertBetween]
    simp [Unlent]
  case inside => exact fun k here => by cases here
  case aligned => exact fun k here => by cases here
  case bytes => exact bytes_insertBetween _ _ _

theorem Balanced.stop_le (balanced : Balanced r live l) {b : Block} (here : b ∈ l.blocks) :
    b.stop ≤ r.stop := by
  have positive := (balanced.tidy.whole b here).positive
  have last : b.Has (b.stop - 1) := by
    unfold Block.Has Block.stop
    omega
  have within := ((balanced.free _).mp ⟨b, here, last⟩).2.1
  omega

theorem Loan.whole (aligned : granule ∣ k.address) : k.block.Whole :=
  ⟨blockSize_pos _, aligned, granule_dvd_blockSize _⟩

/-- What a request may be given can be lent. -/
theorem balanced_lend (balanced : Balanced r live l) (y : Layout) {p : Nat} {b : Block}
    {front back : List Block} (split : l.blocks = front ++ b :: back) (start : b.start ≤ p)
    (stop : p + blockSize y.size ≤ b.stop) (whole : granule ∣ p) (aligned : y.align ∣ p) :
    Balanced r (⟨p, y⟩ :: live)
      { l with blocks := putBack b p (p + blockSize y.size) (front ++ back) } := by
  have tidy := balanced.tidy
  have here : b ∈ l.blocks := by simp [split]
  have less : p < p + blockSize y.size := Nat.lt_add_of_pos_right (blockSize_pos _)
  have unlent : ∀ a, p ≤ a → a < p + blockSize y.size → Unlent r live a := fun a low high =>
    (balanced.free a).mp ⟨b, here, by omega, by omega⟩
  rw [split] at tidy
  refine ⟨balanced.ready, ?tidy, fun a => ?free, ?inside, ?apart, ?aligned, ?bytes⟩
  case tidy =>
    exact (tidy_putBack tidy start less stop whole
      (Nat.dvd_add whole (granule_dvd_blockSize _))).2
  case free =>
    have before : Covers l.blocks a ↔ b.Has a ∨ Covers (front ++ back) a := by
      rw [split, covers_middle]
    -- what is cut out of `b` was in no other block, so it does not matter that they all stay
    have other : Covers (front ++ back) a → ¬ (p ≤ a ∧ a < p + blockSize y.size) :=
      fun out cut => tidy.not_covers (b := b) ⟨by omega, by omega⟩ out
    have after : Unlent r (⟨p, y⟩ :: live) a ↔
        Unlent r live a ∧ ¬ (p ≤ a ∧ a < p + blockSize y.size) := by
      simp only [Unlent, List.forall_mem_cons, Loan.block, Block.Has, Block.stop]
      constructor
      · rintro ⟨low, high, own, out⟩
        exact ⟨⟨low, high, out⟩, own⟩
      · rintro ⟨⟨low, high, out⟩, own⟩
        exact ⟨low, high, own, out⟩
    rw [covers_putBack start less stop, after, ← balanced.free, before, or_and_right]
    exact or_congr Iff.rfl (iff_self_and.mpr other)
  case inside =>
    refine List.forall_mem_cons.mpr ⟨⟨?_, ?_⟩, balanced.inside⟩
    · exact (unlent p (Nat.le_refl _) less).1
    · exact Nat.le_trans stop (balanced.stop_le here)
  case apart =>
    refine List.pairwise_cons.mpr ⟨fun k there => ?_, balanced.apart⟩
    refine Block.clear_of_has (Loan.whole whole) (Loan.whole (balanced.aligned k there).2) ?_
    exact fun a cut => (unlent a cut.1 cut.2).2.2 k there
  case aligned => exact List.forall_mem_cons.mpr ⟨⟨aligned, whole⟩, balanced.aligned⟩
  case bytes =>
    have left := bytes_putBack start less stop (front ++ back)
    have total := balanced.bytes
    rw [Nat.add_sub_cancel_left] at left
    rw [freeBytes, split, bytes_middle, ← left] at total
    rw [List.map_cons, List.sum_cons, ← total]
    exact (Nat.add_assoc _ _ _).symm

/-- A request is turned down and changes nothing, or served. -/
theorem balanced_serve (balanced : Balanced r live l) (low : r.stop ≤ 2 ^ 63) (y : Layout) :
    l.serve y.size y.align = .ok (none, l) ∨
      ∃ p l', l.serve y.size y.align = .ok (some p, l') ∧ Balanced r (⟨p, y⟩ :: live) l' := by
  have ready : l.serve y.size y.align = l.allocate y.size y.align := if_pos balanced.ready
  rw [ready]
  obtain ⟨k, power, -, divides, whole⟩ := exists_pow_max y
  rcases allocate_spec l y fun b here => Nat.le_trans (balanced.stop_le here) low with
    ⟨refused, -⟩ | ⟨p, b, front, back, split, served, room, -, -⟩
  · exact .inl refused
  · have multiple : 2 ^ k ∣ p := power ▸ room.aligned
    exact .inr ⟨p, _, served, balanced_lend balanced y split room.start room.stop
      (Nat.dvd_trans whole multiple) (Nat.dvd_trans divides multiple)⟩

theorem Balanced.perm {live' : List Loan} (balanced : Balanced r live l)
    (perm : live.Perm live') : Balanced r live' l := by
  have mem : ∀ k, k ∈ live' → k ∈ live := fun k => perm.mem_iff.mpr
  refine ⟨balanced.ready, balanced.tidy, fun a => ?free,
    fun k here => balanced.inside k (mem k here),
    perm.pairwise balanced.apart Or.symm, fun k here => balanced.aligned k (mem k here), ?bytes⟩
  case free =>
    rw [balanced.free, Unlent, Unlent]
    simp only [perm.mem_iff]
  case bytes =>
    rw [← balanced.bytes, (perm.map _).sum_nat]

/-- A loan that is given back is free again. -/
theorem balanced_deallocate (balanced : Balanced r (k :: rest) l) :
    ∃ l', l.deallocate (some k.address) k.layout.size = .ok l' ∧ Balanced r rest l' := by
  have fits := k.layout.fits
  have sized : blockSize? k.layout.size = .ok (blockSize k.layout.size) :=
    blockSize?_eq (by omega)
  obtain ⟨within, inside⟩ := List.forall_mem_cons.mp balanced.inside
  obtain ⟨first, apart⟩ := List.pairwise_cons.mp balanced.apart
  obtain ⟨⟨-, whole⟩, aligned⟩ := List.forall_mem_cons.mp balanced.aligned
  have ok : k.block.Whole := Loan.whole whole
  have lent : ∀ a, k.block.Has a → ¬ Covers l.blocks a := fun a here free =>
    ((balanced.free a).mp free).2.2 k (.head rest) here
  refine ⟨{ l with blocks := insert k.block l.blocks }, ?_, balanced.ready,
    tidy_insert ok balanced.tidy lent, fun a => ?free, inside, apart, aligned, ?bytes⟩
  · rw [deallocate, sized]
    rfl
  case free =>
    rw [covers_insert, balanced.free]
    constructor
    · rintro (here | ⟨low, high, out⟩)
      · refine ⟨Nat.le_trans within.1 here.1, Nat.lt_of_lt_of_le here.2 within.2, fun m there => ?_⟩
        exact Block.not_has_of_clear (first m there) here
      · exact ⟨low, high, fun m there => out m (.tail k there)⟩
    · rintro ⟨low, high, out⟩
      by_cases here : k.block.Has a
      · exact .inl here
      · exact .inr ⟨low, high, List.forall_mem_cons.mpr ⟨here, out⟩⟩
  case bytes =>
    have total := balanced.bytes
    rw [List.map_cons, List.sum_cons] at total
    rw [freeBytes, bytes_insert, ← total, freeBytes]
    omega

/-- A loan is exchanged for a new one, unless there is none. -/
theorem balanced_reallocate (balanced : Balanced r live l) (low : r.stop ≤ 2 ^ 63)
    (perm : live.Perm (k :: rest)) (y : Layout) (same : y.align = k.layout.align) :
    l.reallocate k.address k.layout.size k.layout.align y.size = .ok (none, l) ∨
      ∃ q l', l.reallocate k.address k.layout.size k.layout.align y.size = .ok (some q, l') ∧
        Balanced r (⟨q, y⟩ :: rest) l' := by
  rw [← same]
  rcases balanced_serve balanced low y with refused | ⟨q, l', served, lent⟩
  · refine .inl ?_
    rw [reallocate, refused]
    rfl
  · -- for a moment both are out, the new one before the old one
    obtain ⟨l'', freed, done⟩ :=
      balanced_deallocate (lent.perm ((perm.cons _).trans (.swap k ⟨q, y⟩ rest)))
    refine .inr ⟨q, l'', ?_, done⟩
    rw [reallocate, served]
    simp only [bind, Except.bind, freed]
    rfl

/-! ## The headers that a call writes -/

theorem noted_serve (balanced : Balanced r live l) (low : r.stop ≤ 2 ^ 63) (y : Layout)
    {a : Option Nat × FreeList} (served : l.serve y.size y.align = .ok a) :
    ∃ ws, Noted.serve l y.size y.align = .ok ⟨a, ws⟩ ∧ ∀ w ∈ ws, HoldsHeader a.2.blocks w := by
  obtain ⟨ws, noted⟩ := exists_noted ((erase_serve l y.size y.align).trans served)
  refine ⟨ws, noted, ?_⟩
  rw [Noted.serve, if_pos balanced.ready] at noted
  exact holdsHeader_allocate balanced.tidy
    (fun b here => Nat.le_trans (balanced.stop_le here) low) y noted

theorem noted_deallocate (balanced : Balanced r live l) (here : k ∈ live) {l' : FreeList}
    (freed : l.deallocate (some k.address) k.layout.size = .ok l') :
    ∃ ws, Noted.deallocate l (some k.address) k.layout.size = .ok ⟨l', ws⟩ ∧
      ∀ w ∈ ws, HoldsHeader l'.blocks w := by
  obtain ⟨ws, noted⟩ := exists_noted ((erase_deallocate l _ _).trans freed)
  exact ⟨ws, noted,
    holdsHeader_deallocate balanced.tidy k.layout (balanced.aligned k here).2 noted⟩

/-- What the request wrote is still free when the old block is back. -/
theorem noted_reallocate (balanced : Balanced r live l) (low : r.stop ≤ 2 ^ 63) (here : k ∈ live)
    (y : Layout) (same : y.align = k.layout.align) {a : Option Nat × FreeList}
    (moved : l.reallocate k.address k.layout.size k.layout.align y.size = .ok a) :
    ∃ ws, Noted.reallocate l k.address k.layout.size k.layout.align y.size = .ok ⟨a, ws⟩ ∧
      ∀ w ∈ ws, HoldsHeader a.2.blocks w := by
  rw [← same] at moved ⊢
  rw [reallocate] at moved
  rw [Noted.reallocate]
  rcases balanced_serve balanced low y with refused | ⟨q, l', served, lent⟩
  · obtain ⟨ws, noted, held⟩ := noted_serve balanced low y refused
    rw [refused] at moved
    cases moved
    rw [noted]
    exact ⟨ws, rfl, held⟩
  · obtain ⟨ws, noted, held⟩ := noted_serve balanced low y served
    obtain ⟨l'', freed, -⟩ := balanced_deallocate (lent.perm
      (((List.perm_cons_erase here).cons _).trans (.swap k ⟨q, y⟩ _)))
    obtain ⟨ws', noted', held'⟩ := noted_deallocate lent (.tail _ here) freed
    rw [served] at moved
    simp only [bind, Except.bind, freed] at moved
    cases moved
    rw [noted]
    simp only [bind, Except.bind, noted']
    refine ⟨ws ++ ws', rfl, fun w written => ?_⟩
    rcases List.mem_append.mp written with first | last
    · exact holdsHeader_freed k.layout freed (held w first)
    · exact held' w last

/-! ## Every run -/

theorem lent_balanced (low : start + size < 2 ^ 63) (lent : Lent start size live l) :
    Balanced (trimmed start size) live l := by
  have low' : (trimmed start size).stop ≤ 2 ^ 63 :=
    Nat.le_trans (Nat.div_mul_le_self _ _) (Nat.le_of_lt low)
  induction lent with
  | init given =>
    rw [init_eq low] at given
    cases given
    exact balanced_init start size
  | allocate y _ served ih =>
    rcases balanced_serve ih low' y with refused | ⟨p, l', served', after⟩
    · rw [refused] at served
      cases served
    · rw [served'] at served
      cases served
      exact after
  | full y _ refused ih =>
    rcases balanced_serve ih low' y with refused' | ⟨p, l', served, -⟩
    · rw [refused'] at refused
      cases refused
      exact ih
    · rw [served] at refused
      cases refused
  | deallocate _ perm freed ih =>
    obtain ⟨l', freed', after⟩ := balanced_deallocate (ih.perm perm)
    rw [freed'] at freed
    cases freed
    exact after
  | reallocate y _ perm same moved ih =>
    rcases balanced_reallocate ih low' perm y same with stayed | ⟨q, l', moved', after⟩
    · rw [stayed] at moved
      cases moved
    · rw [moved'] at moved
      cases moved
      exact after
  | stay y _ perm same stayed ih =>
    rcases balanced_reallocate ih low' perm y same with stayed' | ⟨q, l', moved, -⟩
    · rw [stayed'] at stayed
      cases stayed
      exact ih
    · rw [moved] at stayed
      cases stayed

/-- The free list is what the region `r` has beside the loans, and each call finds its answer. -/
structure Complement (r : Span) (live : List Loan) (l : FreeList) : Prop where
  intervals : Intervals (Unlent r live) l.blocks
  /-- No two free blocks are adjacent. -/
  gaps : l.blocks.Pairwise fun b c => b.stop < c.start
  apart : live.Pairwise fun k m => k.block.Clear m.block
  spared : ∀ k ∈ live, ∀ b ∈ l.blocks, k.block.Clear b
  inside : ∀ k ∈ live, 0 < k.address ∧ r.first ≤ k.address ∧ k.block.stop ≤ r.stop
  aligned : ∀ k ∈ live, k.layout.align ∣ k.address ∧ granule ∣ k.address
  bytes : l.freeBytes + (live.map fun k => k.block.size).sum = r.length
  /-- Every header is written to a block that is free then. -/
  serve : ∀ y : Layout, ∃ p l' ws, l.serve y.size y.align = .ok (p, l') ∧
    Noted.serve l y.size y.align = .ok ⟨(p, l'), ws⟩ ∧ ∀ w ∈ ws, HoldsHeader l'.blocks w
  deallocate : ∀ k ∈ live, ∃ l' ws, l.deallocate (some k.address) k.layout.size = .ok l' ∧
    Noted.deallocate l (some k.address) k.layout.size = .ok ⟨l', ws⟩ ∧
    ∀ w ∈ ws, HoldsHeader l'.blocks w
  reallocate : ∀ k ∈ live, ∀ y : Layout, y.align = k.layout.align → ∃ p l' ws,
    l.reallocate k.address k.layout.size k.layout.align y.size = .ok (p, l') ∧
    Noted.reallocate l k.address k.layout.size k.layout.align y.size = .ok ⟨(p, l'), ws⟩ ∧
    ∀ w ∈ ws, HoldsHeader l'.blocks w

theorem complement_of_balanced (balanced : Balanced r live l)
    (positive : r.first < r.stop → 0 < r.first) (low : r.stop ≤ 2 ^ 63) :
    Complement r live l := by
  have split : ∀ k ∈ live, live.Perm (k :: live.erase k) := fun k => List.perm_cons_erase
  refine ⟨intervals_of_tidy balanced.tidy balanced.free, balanced.tidy.gaps, balanced.apart,
    fun k here b listed => ?spared, fun k here => ?inside, balanced.aligned, balanced.bytes,
    fun y => ?serve, fun k here => ?deallocate, fun k here y same => ?reallocate⟩
  case spared =>
    refine Block.clear_of_has (Loan.whole (balanced.aligned k here).2)
      (balanced.tidy.whole b listed) fun a lent free => ?_
    exact ((balanced.free a).mp ⟨b, listed, free⟩).2.2 k here lent
  case inside =>
    obtain ⟨first, last⟩ := balanced.inside k here
    have some : k.address < k.block.stop := Nat.lt_add_of_pos_right (blockSize_pos _)
    exact ⟨Nat.lt_of_lt_of_le (positive (by omega)) first, first, last⟩
  case serve =>
    have answered : ∃ p l', l.serve y.size y.align = .ok (p, l') := by
      rcases balanced_serve balanced low y with refused | ⟨p, l', served, -⟩
      · exact ⟨none, l, refused⟩
      · exact ⟨some p, l', served⟩
    obtain ⟨p, l', served⟩ := answered
    obtain ⟨ws, noted, held⟩ := noted_serve balanced low y served
    exact ⟨p, l', ws, served, noted, held⟩
  case deallocate =>
    obtain ⟨l', freed, -⟩ := balanced_deallocate (balanced.perm (split k here))
    obtain ⟨ws, noted, held⟩ := noted_deallocate balanced here freed
    exact ⟨l', ws, freed, noted, held⟩
  case reallocate =>
    have answered : ∃ p l',
        l.reallocate k.address k.layout.size k.layout.align y.size = .ok (p, l') := by
      rcases balanced_reallocate balanced low (split k here) y same with stayed | ⟨q, l', moved, -⟩
      · exact ⟨none, l, stayed⟩
      · exact ⟨some q, l', moved⟩
    obtain ⟨p, l', moved⟩ := answered
    obtain ⟨ws, noted, held⟩ := noted_reallocate balanced low here y same moved
    exact ⟨p, l', ws, moved, noted, held⟩

/-- What is out determines the free list. -/
theorem eq_of_blocks {live' : List Loan} {l' : FreeList} (balanced : Balanced r live l)
    (balanced' : Balanced r live' l')
    (same : ∀ b, b ∈ live.map Loan.block ↔ b ∈ live'.map Loan.block) : l = l' := by
  have unlent : ∀ (loans : List Loan) (a : Nat), Unlent r loans a ↔
      r.first ≤ a ∧ a < r.stop ∧ ∀ b ∈ loans.map Loan.block, ¬ b.Has a := fun loans a => by
    rw [List.forall_mem_map]
    exact Iff.rfl
  have blocks : l.blocks = l'.blocks := by
    refine eq_of_covers balanced.tidy balanced'.tidy fun a => ?_
    rw [balanced.free, balanced'.free, unlent, unlent]
    simp only [same]
  obtain ⟨bs, ready⟩ := l
  obtain ⟨bs', ready'⟩ := l'
  cases blocks
  cases balanced.ready
  cases balanced'.ready
  rfl

/-- **The free list is what is not lent.** After any sequence of requests and returns the free
list has the maximal intervals of the region's granules less the loans, in ascending order. So it
depends on nothing but the blocks that are out. -/
theorem free_list_is_complement (start size : Nat) (nonzero : 0 < start ∨ size = 0)
    (low : start + size < 2 ^ 63) :
    (∃ l ws, empty.init start size = .ok l ∧ Noted.init empty start size = .ok ⟨l, ws⟩ ∧
      (∀ w ∈ ws, HoldsHeader l.blocks w) ∧ ∀ b ∈ l.blocks, HoldsHeader l.blocks b.start) ∧
    (∀ live l, Lent start size live l → Complement (trimmed start size) live l) ∧
    (∀ live live' l l', Lent start size live l → Lent start size live' l' →
      (∀ b, b ∈ live.map Loan.block ↔ b ∈ live'.map Loan.block) → l = l') ∧
    ∀ r : Region, r.start = start → r.size = size →
      ∃ l, empty.adopt r = .ok (.ok l) ∧ Lent start size [] l := by
  have positive : (trimmed start size).first < (trimmed start size).stop →
      0 < (trimmed start size).first := by
    simp only [trimmed, granule]
    omega
  have low' : (trimmed start size).stop ≤ 2 ^ 63 :=
    Nat.le_trans (Nat.div_mul_le_self _ _) (Nat.le_of_lt low)
  refine ⟨?init, ?runs, ?order, ?region⟩
  case init =>
    obtain ⟨ws, noted⟩ := exists_noted ((erase_init empty start size).trans (init_eq low))
    refine ⟨_, ws, init_eq low, noted, holdsHeader_init noted, fun b here => ?_⟩
    exact (balanced_init start size).tidy.holdsHeader here
  case runs =>
    exact fun live l lent => complement_of_balanced (lent_balanced low lent) positive low'
  case order =>
    intro live live' l l' lent lent' same
    exact eq_of_blocks (lent_balanced low lent) (lent_balanced low lent') same
  case region =>
    rintro r rfl rfl
    refine ⟨_, ?_, .init (init_eq low)⟩
    rw [adopt, init_eq low]
    rfl

/-- A request for 24 bytes, one at a multiple of 64 behind a gap, and the first one given back. -/
theorem free_list_joins_gap :
    let y : Layout := ⟨24, 16, ⟨4, rfl⟩, by decide⟩
    let z : Layout := ⟨8, 64, ⟨6, rfl⟩, by decide⟩
    ∃ l, Lent 0x1008 256 [⟨0x1040, z⟩] l ∧ l.blocks = [⟨0x1010, 48⟩, ⟨0x1050, 176⟩] ∧
      Complement (trimmed 0x1008 256) [⟨0x1040, z⟩] l ∧ y.size + z.size < l.freeBytes := by
  intro y z
  have given : Lent 0x1008 256 [] ⟨[⟨0x1010, 240⟩], true⟩ := .init rfl
  have first : Lent 0x1008 256 [⟨0x1010, y⟩] ⟨[⟨0x1030, 208⟩], true⟩ := given.allocate y (by cbv)
  have second : Lent 0x1008 256 [⟨0x1040, z⟩, ⟨0x1010, y⟩]
      ⟨[⟨0x1030, 16⟩, ⟨0x1050, 176⟩], true⟩ := first.allocate z (by cbv)
  have lent : Lent 0x1008 256 [⟨0x1040, z⟩] ⟨[⟨0x1010, 48⟩, ⟨0x1050, 176⟩], true⟩ :=
    second.deallocate (.swap _ _ _) (by cbv)
  exact ⟨_, lent, by decide,
    (free_list_is_complement 0x1008 256 (.inl (by decide)) (by decide)).2.1 _ _ lent, by decide⟩

end FreeList

end Nucleus
