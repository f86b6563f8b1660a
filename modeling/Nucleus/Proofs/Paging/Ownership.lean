import Nucleus.Proofs.Paging.Mapping
import Nucleus.Proofs.Paging.Teardown

/-!
# Ownership

A tree that starts as a cleared top table and is changed by mapping, page faults and unmapping only.
Whatever comes of each of these, every frame that was taken on the way is in the tree once, and
every frame of the tree is taken.

* `Paged`: what a store can come to.
* `Owned`: the frames that are taken, and the tree that they are taken for.
* `Owned.grown`, `Owned.emptied`: growth and teardown keep this.
* `frames_owned_once`: so it holds after every call.
-/

namespace Nucleus.Store

/-- What mapping, faults and unmapping in the tree at `root` can make of a store. -/
inductive Paged (root : Nat) (s₀ : Store) : Store → Prop where
  | start : Paged root s₀ s₀
  | map {s : Store} (address pages : Nat) : Paged root s₀ s →
      Paged root s₀ (s.map root address pages).value.2
  | fault {s : Store} (code : FaultCode) (address : Nat) (window : Span) : Paged root s₀ s →
      Paged root s₀ (s.handleFault root code address window).value.2
  | unmap {s : Store} (address : Nat) : Paged root s₀ s → Paged root s₀ (s.unmap root address)

/-- The frames that are taken in `s` and were not in `s₀` are those of the tree at `root`, the top
table apart. -/
structure Owned (root : Nat) (s₀ s : Store) : Prop where
  capacity : s.frames.capacity = s₀.frames.capacity
  taken : ∀ f, s.frames.isTaken f = true ∧ s₀.frames.isTaken f = false ↔
    ∃ i p, s.memory.follow 4 root (i :: p) = some f
  kept : ∀ f, s₀.frames.isTaken f = true → s.frames.isTaken f = true
  unique : ∀ p q f, s.memory.follow 4 root p = some f → s.memory.follow 4 root q = some f → p = q
  clear : ∀ p g, s.memory.follow 4 root p = some g → p.length < 4 →
    ∀ i, (s.memory.entry g i).present = false → s.memory.entry g i = .zero
  /-- Paths follow every entry that is present. -/
  small : ∀ p g, s.memory.follow 4 root p = some g → p.length < 4 →
    ∀ i, (s.memory.entry g i).huge = false

variable {root : Nat} {s₀ s s' : Store} {slots : List (Fin 512)}

namespace Owned

theorem wellFormed (owned : Owned root s₀ s) (top : s₀.frames.isTaken root = true) :
    s.WellFormed 4 root := by
  refine ⟨owned.unique, fun p f leads => ?taken, owned.clear⟩
  case taken =>
    cases p with
    | nil =>
      rw [← Option.some.inj (Memory.follow_nil.symm.trans leads)]
      exact owned.kept root top
    | cons i p => exact ((owned.taken f).mpr ⟨i, p, leads⟩).1

theorem plain (owned : Owned root s₀ s) : s.Plain 4 root := by
  intro p g leads full i
  exact owned.small p g leads (by omega) i

theorem start (clear : ∀ i, s₀.memory.entry root i = .zero) : Owned root s₀ s₀ := by
  have bare : ∀ i p, s₀.memory.follow 4 root (i :: p) = none := fun i p =>
    Memory.follow_of_zero (clear i)
  have top : ∀ p g, s₀.memory.follow 4 root p = some g → p = [] ∧ g = root := by
    intro p g leads
    cases p with
    | nil => exact ⟨rfl, Option.some.inj (leads.symm.trans Memory.follow_nil)⟩
    | cons i p =>
      rw [bare] at leads
      cases leads
  refine ⟨rfl, fun f => ?taken, fun f taken => taken, fun p q f hp hq => ?unique,
    fun p g leads _ i _ => ?clear, fun p g leads _ i => ?small⟩
  case taken =>
    constructor
    · rintro ⟨taken, free⟩
      rw [taken] at free
      cases free
    · rintro ⟨i, p, leads⟩
      rw [bare] at leads
      cases leads
  case unique => rw [(top p f hp).1, (top q f hq).1]
  case clear => rw [(top p g leads).2, clear]
  case small =>
    rw [(top p g leads).2, clear]
    rfl

theorem grown (owned : Owned root s₀ s) (top : s₀.frames.isTaken root = true)
    (grown : Grown 4 root s s') : Owned root s₀ s' := by
  have well := owned.wellFormed top
  have well' := grown.wellFormed well
  have fresh : ∀ i p f, s'.memory.follow 4 root (i :: p) = some f →
      s₀.frames.isTaken f = false := by
    intro i p f leads
    rcases grown.fresh _ f leads with before | free
    · exact ((owned.taken f).mpr ⟨i, p, before⟩).2
    · cases start : s₀.frames.isTaken f with
      | false => rfl
      | true =>
        rw [owned.kept f start] at free
        cases free
  refine ⟨grown.capacity.trans owned.capacity, fun f => ?taken, fun f taken => ?kept, well'.unique,
    well'.absent, fun p g leads short i => ?small⟩
  case taken =>
    constructor
    · rintro ⟨taken, free⟩
      rcases (grown.taken f).mp taken with before | ⟨_ | ⟨i, p⟩, leads⟩
      · obtain ⟨i, p, leads⟩ := (owned.taken f).mp ⟨before, free⟩
        exact ⟨i, p, grown.keeps _ f leads⟩
      · rw [← Option.some.inj (Memory.follow_nil.symm.trans leads), top] at free
        cases free
      · exact ⟨i, p, leads⟩
    · rintro ⟨i, p, leads⟩
      exact ⟨(grown.taken f).mpr (.inr ⟨_, leads⟩), fresh i p f leads⟩
  case kept => exact (grown.taken f).mpr (.inl (owned.kept f taken))
  case small =>
    rcases grown.fresh p g leads with before | free
    · rw [(grown.old p g before short i).huge]
      exact owned.small p g before short i
    · rw [(grown.new p g leads free i).1.huge]
      rfl

theorem emptied (owned : Owned root s₀ s) (top : s₀.frames.isTaken root = true)
    (emptied : Emptied slots 4 root s s') : Owned root s₀ s' := by
  have well := owned.wellFormed top
  have well' := emptied.wellFormed well
  refine ⟨emptied.capacity.trans owned.capacity, fun f => ?taken, fun f taken => ?kept,
    well'.unique, well'.absent, fun p g leads short i => ?small⟩
  case taken =>
    constructor
    · rintro ⟨taken, free⟩
      have before : s.frames.isTaken f = true := by
        rw [← Bool.not_eq_false]
        intro vacant
        rw [(emptied.free f).mpr (.inl vacant)] at taken
        cases taken
      obtain ⟨i, p, leads⟩ := (owned.taken f).mp ⟨before, free⟩
      refine ⟨i, p, (emptied.follow_iff well).mpr ⟨fun listed => ?_, leads⟩⟩
      have known : f < s.frames.capacity := by
        rw [owned.capacity]
        exact Frames.lt_capacity_of_free free
      rw [(emptied.free f).mpr (.inr ⟨known, i, listed, p, leads⟩)] at taken
      cases taken
    · rintro ⟨i, p, leads⟩
      exact ⟨well'.taken _ f leads,
        ((owned.taken f).mpr ⟨i, p, ((emptied.follow_iff well).mp leads).2⟩).2⟩
  case kept =>
    rw [← Bool.not_eq_false, emptied.free]
    rintro (free | ⟨-, i, -, p, leads⟩)
    · rw [owned.kept f taken] at free
      cases free
    · have start := ((owned.taken f).mpr ⟨i, p, leads⟩).2
      rw [taken] at start
      cases start
  case small =>
    rcases emptied.entry_of_follow well leads i with same | clear
    · rw [same]
      exact owned.small p g (emptied.follow_of well leads) short i
    · rw [clear]
      rfl

end Owned

theorem owned_paged (top : s₀.frames.isTaken root = true) (bounded : s₀.Bounded)
    (clear : ∀ i, s₀.memory.entry root i = .zero) (paged : Paged root s₀ s) :
    Owned root s₀ s := by
  have within : ∀ {s}, Owned root s₀ s → s.Bounded := fun owned => by
    unfold Bounded
    rw [owned.capacity]
    exact bounded
  induction paged with
  | start => exact .start clear
  | map address pages _ ih =>
    exact ih.grown top (grown_map (ih.wellFormed top) (within ih) address pages)
  | fault code address window _ ih =>
    exact ih.grown top (grown_handleFault (ih.wellFormed top) (within ih) code address window)
  | unmap address _ ih => exact ih.emptied top (emptied_unmap (ih.wellFormed top) ih.plain address)

/-- **Every frame has one owner.** A top table is taken from the allocator and cleared. However its
tree is changed from then on, and whatever fails on the way, the frames that were taken since are
the tables and pages of the tree, each reached by one path, and what is not present is clear. -/
theorem frames_owned_once (fs fs' : Frames) (m : Memory) (root : Nat)
    (granted : (fs.allocate 1).value = .ok (root, fs')) (small : fs.capacity ≤ Entry.frameBound) :
    ∀ s, Paged root ⟨fs', m.clear root⟩ s → Owned root ⟨fs', m.clear root⟩ s := by
  intro s paged
  obtain ⟨-, fits, -, rfl⟩ := Frames.allocate_eq_ok.mp granted
  have free : fs.isTaken root = false := fits.free root (Nat.le_refl _) (Nat.lt_succ_self _)
  have low : root < Word.max :=
    Nat.lt_of_lt_of_le (Frames.lt_capacity_of_free free) (Nat.le_trans small (by decide))
  refine owned_paged ?top ?bounded (fun i => ?clear) paged
  case top =>
    rw [← Bool.not_eq_false, Frames.free_after_one low]
    exact fun h => h.2 rfl
  case bounded =>
    unfold Bounded
    rw [Frames.capacity_mark]
    exact small
  case clear => rw [Memory.entry_clear, if_pos rfl]

/-- Three frames, which held something before, are too few for a page; the two that the attempt took
are in the tree. Then all is taken down again. -/
theorem frames_owned_after_failure :
    let fs := (Frames.full 1).release 0 3
    let m := Memory.filled (.ofNat 0x2003)
    let s := (map ⟨fs.mark 0 1, m.clear 0⟩ 0 0x1000 1).value
    (fs.allocate 1).value = .ok (0, fs.mark 0 1) ∧ fs.capacity ≤ Entry.frameBound ∧
      s.1 = .error (.alloc (.outOfMemory 1)) ∧
      Owned 0 ⟨fs.mark 0 1, m.clear 0⟩ s.2 ∧ (∃ i p, s.2.memory.follow 4 0 (i :: p) = some 2) ∧
      Owned 0 ⟨fs.mark 0 1, m.clear 0⟩ (s.2.unmap 0 0x1000) := by
  have granted : (((Frames.full 1).release 0 3).allocate 1).value =
      .ok (0, ((Frames.full 1).release 0 3).mark 0 1) := by rfl
  have owned := frames_owned_once _ _ (Memory.filled (.ofNat 0x2003)) 0 granted (by decide)
  have mapped := owned _ (.map 0x1000 1 .start)
  exact ⟨granted, by decide, by rfl, mapped, (mapped.taken 2).mp ⟨by rfl, by rfl⟩,
    owned _ (.unmap 0x1000 (.map 0x1000 1 .start))⟩

end Nucleus.Store
