import Nucleus.Proofs.Heap.Loans

/-!
# Least fit

The search only tries the first multiple of the alignment in each block, block after block. As the
blocks are the maximal intervals of the free bytes, in ascending order, that is a search of all free
bytes, and none is left out.

* `Summed`: the request with every sum made on machine words.
* `summed_allocate`: none of the sums is too large.
* `exists_block`: free bytes in a row lie in one block.
* `allocate_least_fit`: what is returned is the least address that would do.
-/

namespace Nucleus.FreeList
variable {b c : Block} {bs cs : List Block} {n p q : Nat}

/-! ## Machine words

Whoever walks past a block asks where it ends, if only to see whether it touches the next one. -/

namespace Summed

def stop (b : Block) : Except Panic Nat := Word.add? b.start b.size

def attach (b : Block) : List Block → Except Panic (List Block)
  | [] => pure [b]
  | c :: cs => do
    if (← stop b) = c.start then pure (⟨b.start, ← Word.add? b.size c.size⟩ :: cs)
    else pure (b :: c :: cs)

def insert (b : Block) : List Block → Except Panic (List Block)
  | [] => pure [b]
  | c :: cs => do if c.start < b.start then attach c (← insert b cs) else attach b (c :: cs)

def place (b : Block) (size align : Nat) : Except Panic (Option Nat) := do
  let stop ← stop b
  let p ← alignUp? b.start align
  pure (if Word.satAdd p size ≤ stop then some p else none)

def find (size align : Nat) : List Block → Except Panic (Option (Nat × Block × List Block))
  | [] => pure none
  | b :: bs => do
    match ← place b size align with
    | some p => pure (some (p, b, bs))
    | none =>
      match ← find size align bs with
      | some (p, c, cs) => pure (some (p, c, b :: cs))
      | none => pure none

def insertBetween (p q : Nat) (bs : List Block) : Except Panic (List Block) :=
  if p < q then insert ⟨p, q - p⟩ bs else pure bs

def putBack (b : Block) (p q : Nat) (bs : List Block) : Except Panic (List Block) := do
  insertBetween q (← stop b) (← insertBetween b.start p bs)

/-- Serve a request, as `FreeList.allocate` does. -/
def allocate (l : FreeList) (size align : Nat) : Except Panic (Option Nat × FreeList) := do
  let size ← blockSize? size
  match ← find size (max align granule) l.blocks with
  | none => pure (none, l)
  | some (p, b, bs) =>
    pure (some p, { l with blocks := ← putBack b p (Word.satAdd p size) bs })

end Summed

theorem summed_stop (small : b.stop < Word.bound) : Summed.stop b = .ok b.stop :=
  Word.add?_eq_ok.mpr ⟨small, rfl⟩

theorem stop_lt_attach (small : ∀ c ∈ b :: bs, c.stop < n) : ∀ c ∈ attach b bs, c.stop < n := by
  cases bs with
  | nil => exact small
  | cons c cs =>
    rw [attach]
    split
    · next touch =>
      obtain ⟨-, next, rest⟩ := by simpa only [List.forall_mem_cons] using small
      exact List.forall_mem_cons.mpr ⟨Block.stop_join touch ▸ next, rest⟩
    · exact small

theorem stop_lt_insert (small : ∀ c ∈ b :: bs, c.stop < n) : ∀ c ∈ insert b bs, c.stop < n := by
  induction bs with
  | nil => exact small
  | cons c cs ih =>
    obtain ⟨own, first, rest⟩ := by simpa only [List.forall_mem_cons] using small
    rw [insert]
    split
    · have later := ih (List.forall_mem_cons.mpr ⟨own, rest⟩)
      exact stop_lt_attach (List.forall_mem_cons.mpr ⟨first, later⟩)
    · exact stop_lt_attach small

theorem summed_attach (small : ∀ c ∈ b :: bs, c.stop < Word.bound) :
    Summed.attach b bs = .ok (attach b bs) := by
  cases bs with
  | nil => rfl
  | cons c cs =>
    obtain ⟨own, next, -⟩ := by simpa only [List.forall_mem_cons] using small
    rw [Summed.attach, attach, summed_stop own]
    simp only [bind, Except.bind]
    split
    · next touch =>
      have joined : b.size + c.size < Word.bound := by
        rw [← Block.stop_join touch] at next
        exact Nat.lt_of_le_of_lt (Nat.le_add_left _ _) next
      rw [Word.add?_eq_ok.mpr ⟨joined, rfl⟩]
      rfl
    · rfl

theorem summed_insert (small : ∀ c ∈ b :: bs, c.stop < Word.bound) :
    Summed.insert b bs = .ok (insert b bs) := by
  induction bs with
  | nil => rfl
  | cons c cs ih =>
    obtain ⟨own, first, rest⟩ := by simpa only [List.forall_mem_cons] using small
    have others : ∀ d ∈ b :: cs, d.stop < Word.bound := List.forall_mem_cons.mpr ⟨own, rest⟩
    rw [Summed.insert, insert]
    split
    · rw [ih others]
      exact summed_attach (List.forall_mem_cons.mpr ⟨first, stop_lt_insert others⟩)
    · exact summed_attach small

theorem summed_place (small : b.stop < Word.bound) (size align : Nat) :
    Summed.place b size align = place? b size align := by
  rw [Summed.place, summed_stop small]
  rfl

theorem summed_find (size align : Nat) (small : ∀ b ∈ bs, b.stop < Word.bound) :
    Summed.find size align bs = find? size align bs := by
  induction bs with
  | nil => rfl
  | cons b bs ih =>
    obtain ⟨first, rest⟩ := List.forall_mem_cons.mp small
    rw [Summed.find, summed_place first, ih rest]
    rfl

theorem summed_insertBetween (word : q < Word.bound) (small : ∀ c ∈ bs, c.stop < Word.bound) :
    Summed.insertBetween p q bs = .ok (insertBetween p q bs) ∧
      ∀ c ∈ insertBetween p q bs, c.stop < Word.bound := by
  rw [Summed.insertBetween, insertBetween]
  split
  · next some =>
    have all : ∀ c ∈ (⟨p, q - p⟩ : Block) :: bs, c.stop < Word.bound := by
      refine List.forall_mem_cons.mpr ⟨?_, small⟩
      rwa [Block.stop_between (Nat.le_of_lt some)]
    exact ⟨summed_insert all, stop_lt_insert all⟩
  · exact ⟨rfl, small⟩

theorem summed_putBack (word : p < Word.bound) (small : ∀ c ∈ b :: bs, c.stop < Word.bound) :
    Summed.putBack b p q bs = .ok (putBack b p q bs) := by
  obtain ⟨own, rest⟩ := List.forall_mem_cons.mp small
  obtain ⟨front, small'⟩ := summed_insertBetween (p := b.start) word rest
  rw [Summed.putBack, summed_stop own, front, putBack_eq]
  exact (summed_insertBetween own small').1

/-- No sum of a request is too large for a word, whatever it asks for. -/
theorem summed_allocate (l : FreeList) (y : Layout) (low : ∀ b ∈ l.blocks, b.stop ≤ 2 ^ 63) :
    Summed.allocate l y.size y.align = l.allocate y.size y.align := by
  have word : (2 : Nat) ^ 63 < Word.bound := by decide
  have small : ∀ b ∈ l.blocks, b.stop < Word.bound := fun b here =>
    Nat.lt_of_le_of_lt (low b here) word
  have fits := y.fits
  have sized : blockSize? y.size = .ok (blockSize y.size) := blockSize?_eq (by omega)
  obtain ⟨k, power, bounded, -, -⟩ := exists_pow_max y
  rw [Summed.allocate, allocate, sized, power]
  simp only [bind, Except.bind, summed_find _ _ small]
  rcases find?_spec (blockSize y.size) bounded l.blocks low with
    ⟨nothing, -⟩ | ⟨p, b, front, back, found, split, room, -, -⟩
  · rw [nothing]
  · have here : ∀ c ∈ b :: (front ++ back), c.stop < Word.bound := fun c listed => by
      apply small
      simpa [split, or_left_comm] using listed
    have last : p + blockSize y.size < Word.bound :=
      Nat.lt_of_le_of_lt room.stop (here b (.head _))
    have whole : Word.satAdd p (blockSize y.size) = p + blockSize y.size := by
      rw [Word.satAdd, Word.max]
      omega
    rw [found]
    simp only [whole, summed_putBack (Nat.lt_of_le_of_lt (Nat.le_add_right _ _) last) here]

/-! ## The least place -/

/-- Free bytes in a row lie in one block, as there is a gap behind every block. -/
theorem exists_block (tidy : Tidy bs) (some : p < q) (free : ∀ a, p ≤ a → a < q → Covers bs a) :
    ∃ b ∈ bs, b.start ≤ p ∧ q ≤ b.stop := by
  obtain ⟨b, listed, first⟩ := free p (Nat.le_refl p) some
  refine ⟨b, listed, first.1, Nat.le_of_not_lt fun past => ?_⟩
  obtain ⟨c, listed', next⟩ := free b.stop (Nat.le_of_lt first.2) past
  have pair := tidy.pair listed listed'
  unfold Block.Has at first next
  rcases pair with rfl | pair <;> omega

/-- The bytes of a request for `y` from `p` on, a multiple of its alignment and of a granule, are
those of region `r` that are not lent. -/
structure Fits (r : Span) (live : List Loan) (y : Layout) (p : Nat) : Prop where
  aligned : max y.align granule ∣ p
  free : ∀ a, p ≤ a → a < p + blockSize y.size → Unlent r live a

variable {r : Span} {live : List Loan} {l : FreeList} {y : Layout}

/-- A place for a request is room in some block. -/
theorem fits_iff (balanced : Balanced r live l) : Fits r live y p ↔
    ∃ b ∈ l.blocks, Room b (blockSize y.size) (max y.align granule) p := by
  constructor
  · intro fits
    have some : p < p + blockSize y.size := Nat.lt_add_of_pos_right (blockSize_pos _)
    obtain ⟨b, listed, start, stop⟩ := exists_block balanced.tidy some fun a low high =>
      (balanced.free a).mpr (fits.free a low high)
    exact ⟨b, listed, fits.aligned, start, stop⟩
  · rintro ⟨b, listed, room⟩
    refine ⟨room.aligned, fun a low high => (balanced.free a).mp ⟨b, listed, ?_, ?_⟩⟩
    · exact Nat.le_trans room.start low
    · exact Nat.lt_of_lt_of_le high room.stop

/-- A request is turned down if there is no place for it, and is given the least place if there is
one. -/
theorem balanced_allocate (balanced : Balanced r live l) (low : r.stop ≤ 2 ^ 63) (y : Layout) :
    (l.allocate y.size y.align = .ok (none, l) ∧ ∀ q, ¬ Fits r live y q) ∨
    ∃ p l', l.allocate y.size y.align = .ok (some p, l') ∧ Fits r live y p ∧
      ∀ q, Fits r live y q → p ≤ q := by
  simp only [fits_iff balanced]
  rcases allocate_spec l y fun b here => Nat.le_trans (balanced.stop_le here) low with
    ⟨refused, full⟩ | ⟨p, b, front, back, split, served, room, full, least⟩
  · exact .inl ⟨refused, fun q ⟨b, listed, room⟩ => full b listed q room⟩
  · have here : b ∈ l.blocks := by simp [split]
    refine .inr ⟨p, _, served, ⟨b, here, room⟩, fun q ⟨c, listed, room'⟩ => ?_⟩
    have gaps := balanced.tidy.gaps
    rw [split] at listed gaps
    rcases List.mem_append.mp listed with early | rest
    · exact absurd room' (full c early q)
    · rcases List.mem_cons.mp rest with rfl | late
      · exact least q room'
      · -- all of a later block lies behind the end of `b`
        have after := (List.pairwise_cons.mp (List.pairwise_append.mp gaps).2.1).1 c late
        have stop := room.stop
        have start := room'.start
        omega

/-- **Least fit.** Whatever was asked of a heap and given back before, a request comes to an answer
and no sum of it is too large for a word. The answer is the least address at the alignment from
which on there are enough bytes in a row that are not lent. There is none, and the list stays as it
is, if and only if there is no such address. -/
theorem allocate_least_fit (start size : Nat) (low : start + size < 2 ^ 63) (live : List Loan)
    (l : FreeList) (lent : Lent start size live l) (y : Layout) :
    ∃ answer l', l.allocate y.size y.align = .ok (answer, l') ∧
      Summed.allocate l y.size y.align = .ok (answer, l') ∧
      (∀ p, answer = some p ↔ Fits (trimmed start size) live y p ∧
        ∀ q, Fits (trimmed start size) live y q → p ≤ q) ∧
      (answer = none ∧ l' = l ↔ ¬ ∃ p, Fits (trimmed start size) live y p) ∧
      (0 < start → answer ≠ some 0) := by
  have balanced := lent_balanced low lent
  have low' : (trimmed start size).stop ≤ 2 ^ 63 :=
    Nat.le_trans (Nat.div_mul_le_self _ _) (Nat.le_of_lt low)
  rw [summed_allocate l y fun b here => Nat.le_trans (balanced.stop_le here) low']
  rcases balanced_allocate balanced low' y with ⟨refused, full⟩ | ⟨p, l', served, fits, least⟩
  · refine ⟨none, l, refused, refused, fun p => ?_, ?_, fun _ zero => by cases zero⟩
    · simp [full p]
    · simp [full]
  · refine ⟨some p, l', served, served, fun q => ?_, ?_, fun positive zero => ?_⟩
    · rw [Option.some_inj]
      constructor
      · rintro rfl
        exact ⟨fits, least⟩
      · exact fun ⟨fits', least'⟩ => Nat.le_antisymm (least q fits') (least' p fits)
    · simp only [Option.some_ne_none, false_and, false_iff, not_not]
      exact ⟨p, fits⟩
    · cases zero
      have first := (fits.free 0 (Nat.le_refl 0) (by simp [blockSize_pos])).1
      simp only [trimmed, granule] at first
      omega

/-- The gap in front of a block at a multiple of 64 is too short for 40 bytes, so these go behind
it. There is no place for 200 bytes, though as many are free. -/
theorem allocate_least_fit_behind_gap :
    let y : Layout := ⟨24, 16, ⟨4, rfl⟩, by decide⟩
    let z : Layout := ⟨8, 64, ⟨6, rfl⟩, by decide⟩
    let w : Layout := ⟨40, 8, ⟨3, rfl⟩, by decide⟩
    let v : Layout := ⟨200, 1, ⟨0, rfl⟩, by decide⟩
    let live : List Loan := [⟨0x1040, z⟩, ⟨0x1000, y⟩]
    ∃ l, 0x1000 + 256 < 2 ^ 63 ∧ Lent 0x1000 256 live l ∧
      (∃ l', l.allocate 40 8 = .ok (some 0x1050, l')) ∧
      (Fits (trimmed 0x1000 256) live w 0x1050 ∧
        ∀ q, Fits (trimmed 0x1000 256) live w q → 0x1050 ≤ q) ∧
      l.allocate 200 1 = .ok (none, l) ∧ 200 ≤ l.freeBytes ∧
      ¬ ∃ p, Fits (trimmed 0x1000 256) live v p := by
  intro y z w v live
  have given : Lent 0x1000 256 [] ⟨[⟨0x1000, 256⟩], true⟩ := .init rfl
  have first : Lent 0x1000 256 [⟨0x1000, y⟩] ⟨[⟨0x1020, 224⟩], true⟩ := given.allocate y (by cbv)
  have lent : Lent 0x1000 256 live ⟨[⟨0x1020, 32⟩, ⟨0x1050, 176⟩], true⟩ :=
    first.allocate z (by cbv)
  have low : 0x1000 + 256 < 2 ^ 63 := by decide
  have served : allocate ⟨[⟨0x1020, 32⟩, ⟨0x1050, 176⟩], true⟩ 40 8 =
      .ok (some 0x1050, ⟨[⟨0x1020, 32⟩, ⟨0x1080, 128⟩], true⟩) := by cbv
  have refused : allocate ⟨[⟨0x1020, 32⟩, ⟨0x1050, 176⟩], true⟩ 200 1 =
      .ok (none, ⟨[⟨0x1020, 32⟩, ⟨0x1050, 176⟩], true⟩) := by cbv
  obtain ⟨answer, l', answered, -, least, -⟩ :=
    allocate_least_fit 0x1000 256 low live _ lent w
  obtain ⟨answer', l'', answered', -, -, none, -⟩ :=
    allocate_least_fit 0x1000 256 low live _ lent v
  cases served.symm.trans answered
  cases refused.symm.trans answered'
  exact ⟨_, low, lent, ⟨_, served⟩, (least _).mp rfl, refused, by decide, none.mp ⟨rfl, rfl⟩⟩

end Nucleus.FreeList
