import Nucleus.Proofs.Frame.Scan
import Nucleus.Proofs.Paging.Failures

/-!
# Restoration

What unmapping a slot of the top table takes away is what hangs below it, and nothing else is lost.
So if the slot was empty, and pages were mapped below it in whatever way, unmapping it leads back to
the frames that were free at first.

* `SlotCleared`, `slotCleared_unmap`: what unmapping does to a well-formed tree.
* `MappedInside`: what a store can come to while pages are mapped below one slot only.
* `MappedInside.free_unmap`: then no other frame has been taken.
* `unmap_exact`: both together.
-/

namespace Nucleus
open Platform

/-- A large page of the tree at `root` has all of frame `f`, or a part of it. -/
def Memory.InLarge (m : Memory) (root f : Nat) : Prop :=
  ∃ p g i, m.follow 4 root p = some g ∧ (m.entry g i).present = true ∧
    (m.entry g i).large (4 - p.length) = true ∧
    (m.entry g i).pointer < (f + 1) * frameBytes ∧
    f * frameBytes < (m.entry g i).pointer + entryBytes (4 - p.length)

namespace Store
variable {s s' t : Store} {root address level table f : Nat} {i : Fin 512} {slots : List (Fin 512)}

/-! ## One slot taken down -/

/-- From `s` to `s'` slot `i` of the tree at `root` was taken down, and nothing else happened. -/
structure SlotCleared (root : Nat) (i : Fin 512) (s s' : Store) : Prop where
  capacity : s'.frames.capacity = s.frames.capacity
  /-- The frames that are given back are those of the tables and pages below the slot. -/
  freed : ∀ f, s.frames.isTaken f = true ∧ s'.frames.isTaken f = false ↔
    f < s.frames.capacity ∧ ∃ p, s.memory.follow 4 root (i :: p) = some f
  free : ∀ f, s.frames.isTaken f = false → s'.frames.isTaken f = false
  /-- A large page has none of its frames given back, except for tables and pages that lie in it.
  By `freed` and `free` that is so of every frame, and of those of a large page in particular. -/
  large : ∀ f, s.memory.InLarge root f → (∀ p, s.memory.follow 4 root (i :: p) ≠ some f) →
    s'.frames.isTaken f = s.frames.isTaken f
  gone : ∀ b, (Linear.ofNat b).part 4 = i → s'.memory.translate root b = none
  beside : ∀ b, (Linear.ofNat b).part 4 ≠ i →
    s'.memory.translate root b = s.memory.translate root b
  absent : (s.memory.entry root i).present = false → s' = s

namespace Emptied

theorem translate_eq_none (emptied : Emptied slots 4 root s s') {b : Nat}
    (listed : (Linear.ofNat b).part 4 ∈ slots) : s'.memory.translate root b = none := by
  apply Memory.walk_absent
  rw [emptied.cleared _ listed]
  rfl

theorem translate_beside (emptied : Emptied slots 4 root s s') (well : s.WellFormed 4 root)
    {b : Nat} (out : (Linear.ofNat b).part 4 ∉ slots) :
    s'.memory.translate root b = s.memory.translate root b := by
  refine Memory.walk_congr (Entry.alike_of_eq (emptied.kept _ out)) fun p g leads j =>
    Entry.alike_of_eq (emptied.touched g ?_ (fun k listed q leads' => ?_) j)
  · rintro rfl
    exact well.not_follow_root leads
  · exact out (well.eq_of_follow leads leads' ▸ listed)

end Emptied

/-- A frame that nothing below the slot leads to is as taken as before. -/
theorem isTaken_eq_of_freed {below : Prop}
    (freed : s.frames.isTaken f = true ∧ s'.frames.isTaken f = false ↔ below)
    (free : s.frames.isTaken f = false → s'.frames.isTaken f = false) (out : ¬ below) :
    s'.frames.isTaken f = s.frames.isTaken f := by
  cases before : s.frames.isTaken f with
  | false => exact free before
  | true =>
    by_contra given
    exact out (freed.mp ⟨before, Bool.not_eq_true _ ▸ given⟩)

theorem slotCleared_unmap (well : s.WellFormed 4 root) (plain : s.Plain 4 root) (address : Nat) :
    SlotCleared root ((Linear.ofNat address).part 4) s (s.unmap root address) := by
  have emptied := emptied_unmap well plain address
  let i := (Linear.ofNat address).part 4
  have freed f : s.frames.isTaken f = true ∧ (s.unmap root address).frames.isTaken f = false ↔
      f < s.frames.capacity ∧ ∃ p, s.memory.follow 4 root (i :: p) = some f := by
    rw [emptied.free]
    constructor
    · rintro ⟨taken, free | ⟨known, j, listed, leads⟩⟩
      · rw [taken] at free
        cases free
      · obtain rfl := List.mem_singleton.mp listed
        exact ⟨known, leads⟩
    · rintro ⟨known, p, leads⟩
      exact ⟨well.taken _ f leads, .inr ⟨known, _, List.mem_singleton_self _, p, leads⟩⟩
  have free f : s.frames.isTaken f = false → (s.unmap root address).frames.isTaken f = false :=
    fun free => (emptied.free f).mpr (.inl free)
  refine ⟨emptied.capacity, freed, free, fun f _ out => ?large, fun b here => ?gone,
    fun b other => ?beside, fun absent => ?absent⟩
  case large =>
    exact isTaken_eq_of_freed (freed f) (free f) fun ⟨_, p, leads⟩ => out p leads
  case gone => exact emptied.translate_eq_none (List.mem_singleton.mpr here)
  case beside =>
    exact emptied.translate_beside well fun here => other (List.mem_singleton.mp here)
  case absent =>
    simp [unmap, unmapSlot, absent]

/-! ## A slot filled and taken down -/

/-- All pages of a run that there are lie below slot `i` of the top table. -/
def RunInside (i : Fin 512) (address n : Nat) : Prop :=
  ∀ j, j < n → pageOf address + j < pageCount →
    (Linear.ofNat (address + j * frameBytes)).part 4 = i

/-- What a store comes to by mapping runs of pages below slot `i` of the tree at `root`, whether
these can be mapped or not. -/
inductive MappedInside (root : Nat) (i : Fin 512) (s : Store) : Store → Prop where
  | start : MappedInside root i s s
  | map {t : Store} (address n : Nat) : MappedInside root i s t → RunInside i address n →
      MappedInside root i s (t.map root address n).value.2

/-- A page table that has grown has no large pages. -/
theorem Grown.plain (grown : Grown level table s s') (plain : s.Plain level table) :
    s'.Plain level table := by
  intro p g leads last i
  rcases grown.fresh p g leads with before | free
  · rw [(grown.old p g before (by omega) i).huge]
    exact plain p g before last i
  · rw [(grown.new p g leads free i).1.huge]
    rfl

namespace MappedInside

/-- The tree has grown, and only below the slot. -/
theorem grown (inside : MappedInside root i s t) (well : s.WellFormed 4 root)
    (bounded : s.Bounded) :
    Grown 4 root s t ∧ Traced (fun p => ∃ rest, p = i :: rest) 4 root s t := by
  induction inside with
  | start => exact ⟨.refl well, .refl s⟩
  | @map t address n _ within ih =>
    obtain ⟨first, before⟩ := ih
    have well₁ := first.wellFormed well
    have bounded₁ := first.bounded bounded
    have second := grown_map well₁ bounded₁ address n
    obtain ⟨m, traced, among⟩ := traced_map well₁ bounded₁ address n
    refine ⟨first.trans second, before.trans (traced.mono fun p path => ?_) first second⟩
    obtain ⟨j, small, rfl⟩ := runPath_iff.mp path
    rw [← within j (among j small).1 (among j small).2]
    exact ⟨_, Linear.path_succ _ 3⟩

/-- Once the slot is unmapped, the same frames are free as before there was anything below it. -/
theorem free_unmap (inside : MappedInside root ((Linear.ofNat address).part 4) s t)
    (well : s.WellFormed 4 root) (plain : s.Plain 4 root) (bounded : s.Bounded)
    (absent : (s.memory.entry root ((Linear.ofNat address).part 4)).present = false) :
    (t.unmap root address).frames.isTaken f = false ↔ s.frames.isTaken f = false := by
  obtain ⟨grown, traced⟩ := inside.grown well bounded
  have cleared := slotCleared_unmap (grown.wellFormed well) (grown.plain plain) address
  have bare : ∀ p, s.memory.follow 4 root ((Linear.ofNat address).part 4 :: p) ≠ some f := by
    intro p leads
    rw [Memory.follow_of_absent absent] at leads
    cases leads
  constructor
  · intro free
    cases before : t.frames.isTaken f with
    | false => exact grown.mono before
    | true =>
      obtain ⟨-, p, leads⟩ := (cleared.freed f).mp ⟨before, free⟩
      exact (grown.fresh _ f leads).resolve_left (bare p)
  · intro free
    cases before : t.frames.isTaken f with
    | false => exact cleared.free f before
    | true =>
      -- the frame was taken on the way, so it hangs in the tree, and no other slot was written to
      obtain taken | ⟨_ | ⟨j, p⟩, leads⟩ := (grown.taken f).mp before
      · rw [free] at taken
        cases taken
      · obtain rfl : root = f := by simpa using leads
        exact absurd free (well.not_free Memory.follow_nil)
      · obtain ⟨_, _, path⟩ := traced.slot well free leads
        obtain rfl := (List.cons.inj path).1
        have known : f < t.frames.capacity := grown.capacity ▸ Frames.lt_capacity_of_free free
        exact ((cleared.freed f).mpr ⟨known, p, leads⟩).2

end MappedInside

/-- **Unmapping is exact.** In a well-formed tree it gives back the tables and pages below the slot
of the top table that covers the address, and no frame beside them, large pages included. No address
of the slot leads anywhere then, and every other one leads where it did. Nothing happens if the slot
is empty. So whatever was mapped below an empty slot, also without success, unmapping it once leads
back to the bitmap there was before. -/
theorem unmap_exact (s : Store) (root address : Nat) (well : s.WellFormed 4 root)
    (plain : s.Plain 4 root) :
    SlotCleared root ((Linear.ofNat address).part 4) s (s.unmap root address) ∧
      (s.Bounded → (s.memory.entry root ((Linear.ofNat address).part 4)).present = false →
        ∀ t, MappedInside root ((Linear.ofNat address).part 4) s t →
          (t.unmap root address).frames.bitmap = s.frames.bitmap) := by
  refine ⟨slotCleared_unmap well plain address, fun bounded absent t inside => ?_⟩
  obtain ⟨grown, -⟩ := inside.grown well bounded
  have cleared := slotCleared_unmap (grown.wellFormed well) (grown.plain plain) address
  apply Bitmap.eq_of_free_iff (cleared.capacity.trans grown.capacity)
  exact fun f => inside.free_unmap well plain bounded absent

end Store

/-! ## A tree with one large page -/

/-- The tree at frame 0 whose slot 1 leads by the tables 1 and 2 to a large page. All else is
empty. -/
def Memory.oneLarge : Memory :=
  ((Memory.zero.put 0 1 (.made 1)).put 1 0 (.made 2)).put 2 0 { Entry.made 512 with huge := true }

/-- The frames from 3 on that the first two megabytes have are free. -/
def Store.oneLarge : Store := ⟨(Frames.full 16).release 3 509, .oneLarge⟩

namespace Memory

theorem entry_oneLarge (g : Nat) (i : Fin 512) : oneLarge.entry g i =
    if 2 = g ∧ 0 = i then { Entry.made 512 with huge := true }
    else if 1 = g ∧ 0 = i then .made 2
    else if 0 = g ∧ 1 = i then .made 1 else .zero := by
  simp only [oneLarge, entry_put, Memory.zero, entry_filled]

theorem link_oneLarge {l g f : Nat} {i : Fin 512} (here : oneLarge.link? l g i = some f) :
    g = 2 ∧ i = 0 ∨ g = 1 ∧ i = 0 ∨ g = 0 ∧ i = 1 := by
  have present := (link?_eq_some.mp here).1
  rw [entry_oneLarge] at present
  split at present
  · next h => exact .inl ⟨h.1.symm, h.2.symm⟩
  · split at present
    · next h => exact .inr (.inl ⟨h.1.symm, h.2.symm⟩)
    · split at present
      · next h => exact .inr (.inr ⟨h.1.symm, h.2.symm⟩)
      · cases present

theorem top_oneLarge : oneLarge.link? 4 0 1 = some 1 := by
  rw [link?, entry_oneLarge]
  decide

theorem middle_oneLarge : oneLarge.link? 3 1 0 = some 2 := by
  rw [link?, entry_oneLarge]
  decide

theorem bottom_oneLarge : oneLarge.link? 2 2 0 = none := by
  rw [link?, entry_oneLarge]
  decide

theorem follow_oneLarge : oneLarge.follow 4 0 [1, 0] = some 2 :=
  (follow_link top_oneLarge).trans ((follow_link middle_oneLarge).trans rfl)

theorem followed_oneLarge {p : List (Fin 512)} {f : Nat} (leads : oneLarge.follow 4 0 p = some f) :
    p = [] ∧ f = 0 ∨ p = [1] ∧ f = 1 ∨ p = [1, 0] ∧ f = 2 := by
  obtain _ | ⟨i, p⟩ := p
  · exact .inl ⟨rfl, by simpa using leads.symm⟩
  obtain ⟨g, first, leads⟩ := follow_cons_eq_some.mp leads
  obtain rfl : i = 1 := by simpa using link_oneLarge first
  cases top_oneLarge.symm.trans first
  obtain _ | ⟨j, p⟩ := p
  · exact .inr (.inl ⟨rfl, by simpa using leads.symm⟩)
  obtain ⟨h, second, leads⟩ := follow_cons_eq_some.mp leads
  obtain rfl : j = 0 := by simpa using link_oneLarge second
  cases middle_oneLarge.symm.trans second
  obtain _ | ⟨k, p⟩ := p
  · exact .inr (.inr ⟨rfl, by simpa using leads.symm⟩)
  obtain ⟨l, third, _⟩ := follow_cons_eq_some.mp leads
  obtain rfl : k = 0 := by simpa using link_oneLarge third
  cases bottom_oneLarge.symm.trans third

theorem inLarge_oneLarge : oneLarge.InLarge 0 600 := by
  refine ⟨[1, 0], 2, 0, follow_oneLarge, ?_⟩
  rw [entry_oneLarge]
  decide

end Memory

namespace Store

theorem wellFormed_oneLarge : oneLarge.WellFormed 4 0 := by
  constructor
  case unique =>
    intro p q f hp hq
    obtain ⟨rfl, rfl⟩ | ⟨rfl, rfl⟩ | ⟨rfl, rfl⟩ := Memory.followed_oneLarge hp <;>
      exact Eq.symm (by simpa using Memory.followed_oneLarge hq)
  case taken =>
    intro p f leads
    obtain ⟨-, rfl⟩ | ⟨-, rfl⟩ | ⟨-, rfl⟩ := Memory.followed_oneLarge leads <;> decide
  case absent =>
    intro p g _ _ i
    show (Memory.oneLarge.entry g i).present = false → Memory.oneLarge.entry g i = .zero
    rw [Memory.entry_oneLarge]
    split
    · rintro ⟨⟩
    · split
      · rintro ⟨⟩
      · split
        · rintro ⟨⟩
        · exact fun _ => rfl

theorem plain_oneLarge : oneLarge.Plain 4 0 := by
  intro p g leads last
  obtain ⟨rfl, -⟩ | ⟨rfl, -⟩ | ⟨rfl, -⟩ := Memory.followed_oneLarge leads <;> cases last

theorem bounded_oneLarge : oneLarge.Bounded := by
  unfold Bounded
  decide

/-- The two pages behind the first one lie below slot 0. -/
theorem runInside_second : RunInside 0 0x1000 2 := by
  intro j small _
  simp only [Linear.part, Linear.ofNat, Fin.ext_iff, Fin.ofNat, frameBytes]
  omega

/-- Taking slot 1 down gives back the two tables alone, and nothing of the large page. Two pages and
their tables that are mapped below slot 0 are given back too. -/
theorem unmap_exact_beside_large :
    let s := oneLarge
    let t := (s.map 0 0x1000 2).value.2
    s.WellFormed 4 0 ∧ s.Plain 4 0 ∧ s.Bounded ∧ SlotCleared 0 1 s (s.unmap 0 0x8000000000) ∧
      (s.unmap 0 0x8000000000).frames.isTaken 2 = false ∧
      s.memory.InLarge 0 600 ∧ (s.unmap 0 0x8000000000).frames.isTaken 600 = true ∧
      (s.memory.entry 0 0).present = false ∧ MappedInside 0 0 s t ∧
      t.frames.isTaken 3 = true ∧ (t.unmap 0 0x1000).frames.bitmap = s.frames.bitmap := by
  intro s t
  have slot : (Linear.ofNat 0x8000000000).part 4 = 1 := by decide
  have slot' : (Linear.ofNat 0x1000).part 4 = 0 := by decide
  obtain ⟨cleared, -⟩ := unmap_exact s 0 0x8000000000 wellFormed_oneLarge plain_oneLarge
  obtain ⟨-, back⟩ := unmap_exact s 0 0x1000 wellFormed_oneLarge plain_oneLarge
  rw [slot] at cleared
  rw [slot'] at back
  have empty : (s.memory.entry 0 0).present = false :=
    congrArg Entry.present (Memory.entry_oneLarge 0 0)
  have inside : MappedInside 0 0 s t := .map 0x1000 2 .start runInside_second
  have taken : t.frames.isTaken 3 = true := by
    simp only [t, s]
    decide +kernel
  refine ⟨wellFormed_oneLarge, plain_oneLarge, bounded_oneLarge, cleared, ?_,
    Memory.inLarge_oneLarge, ?_, empty, inside, taken,
    back bounded_oneLarge empty t inside⟩
  · exact ((cleared.freed 2).mpr ⟨by decide, [0], Memory.follow_oneLarge⟩).2
  · rw [cleared.large 600 Memory.inLarge_oneLarge fun p leads => ?_]
    · decide
    · simpa using Memory.followed_oneLarge leads

end Store

end Nucleus
