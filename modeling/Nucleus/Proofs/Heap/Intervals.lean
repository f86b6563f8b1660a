import Nucleus.Heap.FreeList

/-!
# Intervals

A list of blocks stands for the addresses in its blocks. Where no two blocks touch, the addresses
determine the list: its blocks are their maximal intervals.

* `covers_insert`: inserting a block adds its addresses.
* `tidy_insert`: inserting new addresses keeps the blocks apart, in order and of whole granules.
* `eq_of_covers`: a tidy list is determined by its addresses.
* `intervals_of_tidy`: its blocks are the maximal intervals of them.
* `holdsHeader_insert`: what holds the header of a block goes on to hold it.
-/

namespace Nucleus

namespace Block

/-- Address `a` lies in the block. -/
def Has (b : Block) (a : Nat) : Prop := b.start ≤ a ∧ a < b.stop

/-- The two blocks share no address. -/
def Clear (b c : Block) : Prop := b.stop ≤ c.start ∨ c.stop ≤ b.start

/-- Some granules, and nothing but granules. -/
structure Whole (b : Block) : Prop where
  positive : 0 < b.size
  start : FreeList.granule ∣ b.start
  size : FreeList.granule ∣ b.size

variable {b c : Block} {a : Nat}

theorem Whole.has_start (whole : b.Whole) : b.Has b.start :=
  ⟨Nat.le_refl _, Nat.lt_add_of_pos_right whole.positive⟩

theorem Whole.granule_le (whole : b.Whole) : FreeList.granule ≤ b.size :=
  Nat.le_of_dvd whole.positive whole.size

theorem Whole.between {p q : Nat} (less : p < q) (start : FreeList.granule ∣ p)
    (stop : FreeList.granule ∣ q) : Whole ⟨p, q - p⟩ :=
  ⟨Nat.sub_pos_of_lt less, start, Nat.dvd_sub stop start⟩

theorem Whole.stop (whole : b.Whole) : FreeList.granule ∣ b.stop :=
  Nat.dvd_add whole.start whole.size

theorem stop_between {p q : Nat} (less : p ≤ q) : stop ⟨p, q - p⟩ = q := Nat.add_sub_cancel' less

theorem has_between {p q : Nat} (less : p ≤ q) : Has ⟨p, q - p⟩ a ↔ p ≤ a ∧ a < q := by
  rw [Has, stop_between less]

theorem clear_of_has (whole : b.Whole) (whole' : c.Whole) (none : ∀ a, b.Has a → ¬ c.Has a) :
    b.Clear c := by
  have first := none b.start whole.has_start
  have other : ¬ b.Has c.start := fun here => none _ here whole'.has_start
  unfold Has at first other
  unfold Clear
  omega

theorem not_has_of_clear (clear : b.Clear c) (here : b.Has a) : ¬ c.Has a := by
  unfold Has at *
  unfold Clear at clear
  omega

theorem eq_of_ends (start : b.start = c.start) (stop : b.stop = c.stop) : b = c := by
  obtain ⟨p, n⟩ := b
  obtain ⟨q, m⟩ := c
  simp only [Block.stop] at *
  rw [start] at stop ⊢
  rw [Nat.add_left_cancel stop]

theorem stop_join (touch : b.stop = c.start) : stop ⟨b.start, b.size + c.size⟩ = c.stop := by
  simp only [stop] at *
  omega

theorem has_join (touch : b.stop = c.start) :
    Has ⟨b.start, b.size + c.size⟩ a ↔ b.Has a ∨ c.Has a := by
  simp only [Has, stop] at *
  omega

end Block

namespace FreeList

/-- Address `a` lies in a block of the list. -/
def Covers (bs : List Block) (a : Nat) : Prop := ∃ b ∈ bs, b.Has a

/-- Blocks of whole granules in ascending order, with a gap between any two. -/
structure Tidy (bs : List Block) : Prop where
  gaps : bs.Pairwise fun b c => b.stop < c.start
  whole : ∀ b ∈ bs, b.Whole

/-- The list is that of the maximal intervals in the set `P`, in ascending order. -/
structure Intervals (P : Nat → Prop) (bs : List Block) : Prop where
  ascending : bs.Pairwise fun b c => b.start < c.start
  nonempty : ∀ b ∈ bs, b.start < b.stop
  inside : ∀ b ∈ bs, ∀ a, b.start ≤ a → a < b.stop → P a
  /-- No interval can be extended to the left, and none to the right. -/
  left : ∀ b ∈ bs, ∀ a, a + 1 = b.start → ¬ P a
  right : ∀ b ∈ bs, ¬ P b.stop
  all : ∀ a, P a → ∃ b ∈ bs, b.start ≤ a ∧ a < b.stop

variable {b c : Block} {bs cs : List Block} {a n : Nat}

@[simp] theorem covers_nil : ¬ Covers [] a := by
  rintro ⟨b, here, -⟩
  cases here

@[simp] theorem covers_cons : Covers (b :: bs) a ↔ b.Has a ∨ Covers bs a := by
  simp [Covers]

theorem covers_append : Covers (bs ++ cs) a ↔ Covers bs a ∨ Covers cs a := by
  induction bs with
  | nil => simp
  | cons b bs ih => rw [List.cons_append, covers_cons, ih, covers_cons, or_assoc]

/-- Where in the list a block stands does not matter. -/
theorem covers_middle (front : List Block) :
    Covers (front ++ b :: bs) a ↔ b.Has a ∨ Covers (front ++ bs) a := by
  rw [covers_append, covers_append, covers_cons, or_left_comm]

/-! ## Tidy lists -/

theorem Tidy.nil : Tidy [] := ⟨.nil, fun b here => by cases here⟩

theorem tidy_cons : Tidy (b :: bs) ↔ b.Whole ∧ (∀ c ∈ bs, b.stop < c.start) ∧ Tidy bs := by
  constructor
  · rintro ⟨gaps, whole⟩
    obtain ⟨first, rest⟩ := List.pairwise_cons.mp gaps
    exact ⟨whole b (.head bs), first, rest, fun c here => whole c (.tail b here)⟩
  · rintro ⟨ok, first, gaps, whole⟩
    exact ⟨List.pairwise_cons.mpr ⟨first, gaps⟩, List.forall_mem_cons.mpr ⟨ok, whole⟩⟩

theorem Tidy.sublist (tidy : Tidy cs) (sub : bs.Sublist cs) : Tidy bs :=
  ⟨tidy.gaps.sublist sub, fun b here => tidy.whole b (sub.subset here)⟩

theorem Tidy.pair (tidy : Tidy bs) (hb : b ∈ bs) (hc : c ∈ bs) :
    b = c ∨ b.stop < c.start ∨ c.stop < b.start := by
  apply List.Pairwise.forall_of_forall_of_flip
    (R := fun b c : Block => b = c ∨ b.stop < c.start ∨ c.stop < b.start)
  · exact fun _ _ => .inl rfl
  · exact tidy.gaps.imp fun gap => .inr (.inl gap)
  · exact tidy.gaps.imp fun gap => .inr (.inr gap)
  · exact hb
  · exact hc

/-- A block of a tidy list shares no address with the others. -/
theorem Tidy.not_covers {front : List Block} (tidy : Tidy (front ++ b :: bs)) (here : b.Has a) :
    ¬ Covers (front ++ bs) a := by
  obtain ⟨-, rest, between⟩ := List.pairwise_append.mp tidy.gaps
  rintro ⟨c, listed, there⟩
  unfold Block.Has at here there
  rcases List.mem_append.mp listed with early | late
  · have gap := between c early b (.head bs)
    omega
  · have gap := (List.pairwise_cons.mp rest).1 c late
    omega

/-! ## Inserting a block -/

theorem covers_attach (b : Block) (bs : List Block) (a : Nat) :
    Covers (attach b bs) a ↔ b.Has a ∨ Covers bs a := by
  cases bs with
  | nil => exact covers_cons
  | cons c cs =>
    rw [attach]
    split
    · next touch => rw [covers_cons, Block.has_join touch, covers_cons, or_assoc]
    · exact covers_cons

theorem covers_insert (b : Block) (bs : List Block) (a : Nat) :
    Covers (insert b bs) a ↔ b.Has a ∨ Covers bs a := by
  induction bs with
  | nil => exact covers_cons
  | cons c cs ih =>
    rw [insert]
    split
    · rw [covers_attach, ih, covers_cons, or_left_comm]
    · exact covers_attach b (c :: cs) a

theorem tidy_attach (whole : b.Whole) (tidy : Tidy cs) (after : ∀ c ∈ cs, b.stop ≤ c.start) :
    Tidy (attach b cs) := by
  cases cs with
  | nil => exact tidy_cons.mpr ⟨whole, fun c here => (by cases here), .nil⟩
  | cons c cs =>
    obtain ⟨whole', first, rest⟩ := tidy_cons.mp tidy
    have next := after c (.head cs)
    rw [attach]
    split
    · next touch =>
      refine tidy_cons.mpr ⟨?joined, fun d here => Block.stop_join touch ▸ first d here, rest⟩
      case joined =>
        exact ⟨Nat.add_pos_left whole.positive _, whole.start, Nat.dvd_add whole.size whole'.size⟩
    · next apart =>
      refine tidy_cons.mpr ⟨whole, fun d here => ?gap, tidy⟩
      case gap =>
        rcases List.mem_cons.mp here with rfl | later
        · exact Nat.lt_of_le_of_ne next apart
        · have gap := first d later
          have positive := whole'.positive
          simp only [Block.stop] at *
          omega

theorem le_start_attach (le : n ≤ b.start) (after : ∀ c ∈ bs, n ≤ c.start) :
    ∀ c ∈ attach b bs, n ≤ c.start := by
  cases bs with
  | nil => exact List.forall_mem_singleton.mpr le
  | cons c cs =>
    rw [attach]
    split
    · exact List.forall_mem_cons.mpr ⟨le, fun d here => after d (.tail c here)⟩
    · exact List.forall_mem_cons.mpr ⟨le, after⟩

theorem le_start_insert (le : n ≤ b.start) (after : ∀ c ∈ bs, n ≤ c.start) :
    ∀ c ∈ insert b bs, n ≤ c.start := by
  induction bs with
  | nil => exact List.forall_mem_singleton.mpr le
  | cons c cs ih =>
    obtain ⟨first, rest⟩ := List.forall_mem_cons.mp after
    rw [insert]
    split
    · exact le_start_attach first (ih rest)
    · exact le_start_attach le after

/-- Inserting new addresses keeps a list tidy. -/
theorem tidy_insert (whole : b.Whole) (tidy : Tidy bs) (new : ∀ a, b.Has a → ¬ Covers bs a) :
    Tidy (insert b bs) := by
  induction bs with
  | nil => exact tidy_attach whole .nil fun c here => by cases here
  | cons c cs ih =>
    obtain ⟨whole', first, rest⟩ := tidy_cons.mp tidy
    have clear : b.Clear c :=
      Block.clear_of_has whole whole' fun a here there => new a here (covers_cons.mpr (.inl there))
    have positive := whole.positive
    have positive' := whole'.positive
    simp only [Block.Clear, Block.stop] at clear
    rw [insert]
    split
    · next before =>
      -- `c` may come to touch the first block of what the rest turns into
      have tidy' := ih rest fun a here there => new a here (covers_cons.mpr (.inr there))
      refine tidy_attach whole' tidy' (le_start_insert ?_ fun d here => Nat.le_of_lt (first d here))
      rw [Block.stop]
      omega
    · next after =>
      refine tidy_attach whole tidy (List.forall_mem_cons.mpr ?_)
      have next : b.stop ≤ c.start := by
        rw [Block.stop]
        omega
      refine ⟨next, fun d here => Nat.le_trans next (Nat.le_of_lt ?_)⟩
      exact Nat.lt_of_le_of_lt (Nat.le_add_right _ _) (first d here)

/-! ## The addresses of a tidy list -/

theorem le_of_covers (tidy : Tidy (b :: bs)) (here : Covers (b :: bs) a) : b.start ≤ a := by
  obtain ⟨-, first, -⟩ := tidy_cons.mp tidy
  rcases covers_cons.mp here with inside | ⟨c, listed, inside⟩
  · exact inside.1
  · have gap := first c listed
    have from_start : b.start ≤ b.stop := Nat.le_add_right _ _
    unfold Block.Has at inside
    omega

theorem not_covers_stop (tidy : Tidy (b :: bs)) : ¬ Covers (b :: bs) b.stop := by
  obtain ⟨-, first, -⟩ := tidy_cons.mp tidy
  intro here
  rcases covers_cons.mp here with inside | ⟨c, listed, inside⟩
  · exact Nat.lt_irrefl _ inside.2
  · exact Nat.not_lt.mpr inside.1 (first c listed)

theorem covers_tail (tidy : Tidy (b :: bs)) :
    Covers bs a ↔ ¬ b.Has a ∧ Covers (b :: bs) a := by
  have first : Tidy ([] ++ b :: bs) := tidy
  rw [covers_cons]
  constructor
  · exact fun late => ⟨fun here => first.not_covers here late, .inr late⟩
  · exact fun ⟨out, all⟩ => all.resolve_left out

/-- A tidy list is determined by its addresses. -/
theorem eq_of_covers : ∀ {bs cs : List Block}, Tidy bs → Tidy cs →
    (∀ a, Covers bs a ↔ Covers cs a) → bs = cs := by
  intro bs
  induction bs with
  | nil =>
    intro cs _ tidy' same
    cases cs with
    | nil => rfl
    | cons c cs =>
      have start := (tidy_cons.mp tidy').1.has_start
      exact absurd ((same c.start).mpr (covers_cons.mpr (.inl start))) covers_nil
  | cons b bs ih =>
    intro cs tidy tidy' same
    obtain ⟨whole, first, rest⟩ := tidy_cons.mp tidy
    cases cs with
    | nil => exact absurd ((same b.start).mp (covers_cons.mpr (.inl whole.has_start))) covers_nil
    | cons c cs =>
      obtain ⟨whole', first', rest'⟩ := tidy_cons.mp tidy'
      have start : b.start = c.start := by
        apply Nat.le_antisymm
        · exact le_of_covers tidy ((same _).mpr (covers_cons.mpr (.inl whole'.has_start)))
        · exact le_of_covers tidy' ((same _).mp (covers_cons.mpr (.inl whole.has_start)))
      have stop : b.stop = c.stop := by
        have out : ¬ c.Has b.stop := fun inside =>
          not_covers_stop tidy ((same _).mpr (covers_cons.mpr (.inl inside)))
        have out' : ¬ b.Has c.stop := fun inside =>
          not_covers_stop tidy' ((same _).mp (covers_cons.mpr (.inl inside)))
        have from_start : b.start ≤ b.stop := Nat.le_add_right _ _
        have from_start' : c.start ≤ c.stop := Nat.le_add_right _ _
        unfold Block.Has at out out'
        omega
      obtain rfl := Block.eq_of_ends start stop
      refine congrArg (b :: ·) (ih rest rest' fun a => ?_)
      rw [covers_tail tidy, covers_tail tidy', same]

theorem intervals_of_tidy {P : Nat → Prop} (tidy : Tidy bs) (same : ∀ a, Covers bs a ↔ P a) :
    Intervals P bs := by
  have positive : ∀ b ∈ bs, b.start < b.stop := fun b here =>
    Nat.lt_add_of_pos_right (tidy.whole b here).positive
  refine ⟨?ascending, positive, ?inside, ?left, ?right, fun a here => (same a).mpr here⟩
  case ascending =>
    refine tidy.gaps.imp fun gap => ?_
    exact Nat.lt_of_le_of_lt (Nat.le_add_right _ _) gap
  case inside => exact fun b here a low high => (same a).mp ⟨b, here, low, high⟩
  case left =>
    intro b here a before within
    obtain ⟨c, listed, inside⟩ := (same a).mpr within
    have pair := tidy.pair here listed
    have next := positive b here
    unfold Block.Has at inside
    rcases pair with rfl | pair <;> omega
  case right =>
    intro b here within
    obtain ⟨c, listed, inside⟩ := (same _).mpr within
    have pair := tidy.pair here listed
    have next := positive b here
    unfold Block.Has at inside
    rcases pair with rfl | pair <;> omega

/-! ## Headers -/

/-- A header at `w` lies in one block of the list. -/
def HoldsHeader (bs : List Block) (w : Nat) : Prop :=
  ∃ b ∈ bs, b.start ≤ w ∧ w + granule ≤ b.stop

theorem HoldsHeader.cons {w : Nat} (held : HoldsHeader bs w) : HoldsHeader (b :: bs) w :=
  let ⟨c, listed, within⟩ := held
  ⟨c, .tail b listed, within⟩

theorem Tidy.holdsHeader (tidy : Tidy bs) (here : b ∈ bs) : HoldsHeader bs b.start :=
  ⟨b, here, Nat.le_refl _, Nat.add_le_add_left (tidy.whole b here).granule_le _⟩

theorem holdsHeader_attach {w : Nat} (held : HoldsHeader (b :: bs) w) :
    HoldsHeader (attach b bs) w := by
  cases bs with
  | nil => exact held
  | cons c cs =>
    rw [attach]
    split
    · next touch =>
      obtain ⟨d, listed, low, high⟩ := held
      have joined := Block.stop_join touch
      have sizes : b.start ≤ c.start ∧ b.stop ≤ c.stop := by
        simp only [Block.stop] at *
        omega
      rcases List.mem_cons.mp listed with rfl | later
      · exact ⟨_, .head cs, low, Nat.le_trans high (joined ▸ sizes.2)⟩
      · rcases List.mem_cons.mp later with rfl | last
        · exact ⟨_, .head cs, Nat.le_trans sizes.1 low, joined ▸ high⟩
        · exact ⟨d, .tail _ last, low, high⟩
    · exact held

theorem holdsHeader_insert {w : Nat} (held : HoldsHeader (b :: bs) w) :
    HoldsHeader (insert b bs) w := by
  induction bs with
  | nil => exact held
  | cons c cs ih =>
    rw [insert]
    split
    · refine holdsHeader_attach ?_
      obtain ⟨d, listed, within⟩ := held
      rcases List.mem_cons.mp listed with rfl | later
      · exact (ih ⟨d, .head cs, within⟩).cons
      · rcases List.mem_cons.mp later with rfl | last
        · exact ⟨d, .head _, within⟩
        · exact (ih ⟨d, .tail b last, within⟩).cons
    · exact holdsHeader_attach held

end FreeList

end Nucleus
