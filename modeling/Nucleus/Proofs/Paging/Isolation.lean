import Nucleus.Proofs.Paging.Halves
import Nucleus.Proofs.Paging.Translation

/-!
# Isolation

Trees of tasks share the kernel's lower half and the allocator, and nothing else.

* `Isolated`: every tree has its lower half from the kernel and its own frames above, and no two
  trees have a frame of their own in common.
* `Exchange`: what an operation on one tree does, seen from outside of it.
* `isolated_exchange`, `translate_beside`: this keeps the trees isolated, and no other tree notices.
* `exchange_grown`, `exchange_emptied`, `exchange_drop`: growth and teardown in the upper half are
  exchanges.
-/

namespace Nucleus.Store
open Platform

/-- Paths that stay clear of the lower half. -/
def Upper (p : List (Fin 512)) : Prop := ∀ i ∈ p.head?, userFirst ≤ i.val

/-- The frames that a tree has to itself: its top table, and what hangs in the upper half. -/
def Owns (s : Store) (root f : Nat) : Prop := ∃ p, Upper p ∧ s.memory.follow 4 root p = some f

/-- The tree of a task: the kernel's in its lower half, and in the upper half made from frames that
were free. -/
structure Space (kernel : Nat) (s₀ s : Store) (root : Nat) : Prop where
  wellFormed : s.WellFormed 4 root
  lower : ∀ i : Fin 512, i.val < userFirst → s.memory.entry root i = s₀.memory.entry kernel i
  fresh : ∀ f, s.Owns root f → s₀.frames.isTaken f = false
  /-- Paths follow every entry that is present. -/
  small : ∀ i p g, userFirst ≤ i.val → s.memory.follow 4 root (i :: p) = some g → p.length < 3 →
    ∀ j, (s.memory.entry g j).huge = false

structure Isolated (kernel : Nat) (s₀ s : Store) (users : List Nat) : Prop where
  capacity : s.frames.capacity = s₀.frames.capacity
  /-- The kernel's tree is as it was. -/
  intact : ∀ p g, s₀.memory.follow 4 kernel p = some g →
    ∀ i, s.memory.entry g i = s₀.memory.entry g i
  spaces : ∀ r ∈ users, Space kernel s₀ s r
  apart : users.Pairwise fun r r' => ∀ f, s.Owns r f → ¬ s.Owns r' f
  taken : ∀ f, s.frames.isTaken f = true ↔
    s₀.frames.isTaken f = true ∨ ∃ r ∈ users, s.Owns r f

/-- From `s` to `s'` the frames that the trees `gone` had to themselves were exchanged for those
that the trees `new` have now. -/
structure Exchange (gone new : List Nat) (s s' : Store) : Prop where
  capacity : s'.frames.capacity = s.frames.capacity
  entry : ∀ g, s.frames.isTaken g = true → (∀ r ∈ gone, ¬ s.Owns r g) →
    ∀ i, s'.memory.entry g i = s.memory.entry g i
  taken : ∀ f, s'.frames.isTaken f = true ↔
    (s.frames.isTaken f = true ∧ ∀ r ∈ gone, ¬ s.Owns r f) ∨ ∃ r ∈ new, s'.Owns r f
  fresh : ∀ r ∈ new, ∀ f, s'.Owns r f → (∃ r ∈ gone, s.Owns r f) ∨ s.frames.isTaken f = false

variable {kernel root r f g : Nat} {s₀ s s' : Store} {users gone new rest : List Nat}
  {p : List (Fin 512)} {slots : List (Fin 512)}

/-! ## Paths of a tree -/

theorem owns_root (s : Store) (root : Nat) : s.Owns root root :=
  ⟨[], fun _ none => (by cases none), Memory.follow_nil⟩

theorem upper_or (p : List (Fin 512)) : Upper p ∨ ∃ i q, p = i :: q ∧ i.val < userFirst := by
  cases p with
  | nil => exact .inl fun _ none => by cases none
  | cons i q =>
    by_cases low : i.val < userFirst
    · exact .inr ⟨i, q, rfl, low⟩
    · exact .inl fun j same => Option.some.inj same ▸ Nat.le_of_not_lt low

theorem owns_of_follow {i : Fin 512} (high : userFirst ≤ i.val)
    (leads : s.memory.follow 4 root (i :: p) = some f) : s.Owns root f :=
  ⟨i :: p, fun _ same => Option.some.inj same ▸ high, leads⟩

/-- A frame that a tree has to itself is its top table, or hangs in the upper half. -/
theorem owns_iff : s.Owns root f ↔ f = root ∨
    ∃ i p, userFirst ≤ i.val ∧ s.memory.follow 4 root (i :: p) = some f := by
  constructor
  · rintro ⟨_ | ⟨i, p⟩, up, leads⟩
    · exact .inl (Option.some.inj (leads.symm.trans Memory.follow_nil))
    · exact .inr ⟨i, p, up i rfl, leads⟩
  · rintro (rfl | ⟨i, p, high, leads⟩)
    · exact owns_root s f
    · exact owns_of_follow high leads

/-- Where a tree has the kernel's entries in its lower half, its paths there are the kernel's. -/
theorem follow_lower
    (same : ∀ p g, s₀.memory.follow 4 kernel p = some g →
      ∀ i, s.memory.entry g i = s₀.memory.entry g i)
    {i : Fin 512} (top : s.memory.entry root i = s₀.memory.entry kernel i) (p : List (Fin 512)) :
    s.memory.follow 4 root (i :: p) = s₀.memory.follow 4 kernel (i :: p) :=
  Memory.follow_slot top (fun p g leads => same (i :: p) g leads) p

namespace Isolated
variable (iso : Isolated kernel s₀ s users)
include iso

theorem owns_or (space : Space kernel s₀ s r) (leads : s.memory.follow 4 r p = some f) :
    s.Owns r f ∨ s₀.memory.follow 4 kernel p = some f := by
  rcases upper_or p with up | ⟨i, q, rfl, low⟩
  · exact .inl ⟨p, up, leads⟩
  · rw [follow_lower iso.intact (space.lower i low)] at leads
    exact .inr leads

theorem taken_of_owns (here : r ∈ users) (owns : s.Owns r f) : s.frames.isTaken f = true :=
  (iso.taken f).mpr (.inr ⟨r, here, owns⟩)

theorem taken_of_kernel (well : s₀.WellFormed 4 kernel)
    (leads : s₀.memory.follow 4 kernel p = some f) : s.frames.isTaken f = true :=
  (iso.taken f).mpr (.inl (well.taken p f leads))

theorem free_of_free (free : s.frames.isTaken f = false) : s₀.frames.isTaken f = false := by
  rw [← Bool.not_eq_true] at free ⊢
  exact fun taken => free ((iso.taken f).mpr (.inl taken))

theorem bounded (small : s₀.Bounded) : s.Bounded := by
  unfold Bounded
  rw [iso.capacity]
  exact small

/-- Frames of the kernel are nobody's own. -/
theorem not_owns_of_taken (here : r ∈ users) (taken : s₀.frames.isTaken f = true) :
    ¬ s.Owns r f := by
  intro owns
  rw [(iso.spaces r here).fresh f owns] at taken
  cases taken

theorem perm (same : users.Perm rest) : Isolated kernel s₀ s rest where
  capacity := iso.capacity
  intact := iso.intact
  spaces r here := iso.spaces r (same.mem_iff.mpr here)
  apart := (same.pairwise_iff fun apart f there here => apart f here there).mp iso.apart
  taken f := by simpa only [same.mem_iff] using iso.taken f

/-- One of the trees and the others. -/
theorem split (here : r ∈ users) : Isolated kernel s₀ s ([r] ++ users.erase r) :=
  iso.perm (List.perm_cons_erase here)

end Isolated

theorem isolated_start (kernel : Nat) (s₀ : Store) : Isolated kernel s₀ s₀ [] where
  capacity := rfl
  intact _ _ _ _ := rfl
  spaces r none := by cases none
  apart := .nil
  taken f := by simp

/-! ## Trees beside the one that changes -/

section
variable (well : s₀.WellFormed 4 kernel) (iso : Isolated kernel s₀ s (gone ++ rest))
  (ex : Exchange gone new s s')
include well iso ex

theorem entry_kernel (leads : s₀.memory.follow 4 kernel p = some g) (i : Fin 512) :
    s'.memory.entry g i = s.memory.entry g i := by
  refine ex.entry g (iso.taken_of_kernel well leads) (fun r here => ?_) i
  exact iso.not_owns_of_taken (List.mem_append_left rest here) (well.taken p g leads)

theorem entry_beside (here : r ∈ rest) (leads : s.memory.follow 4 r p = some g) (i : Fin 512) :
    s'.memory.entry g i = s.memory.entry g i := by
  have there : r ∈ gone ++ rest := List.mem_append_right gone here
  rcases iso.owns_or (iso.spaces r there) leads with owns | kernels
  · refine ex.entry g (iso.taken_of_owns there owns) (fun r' left owns' => ?_) i
    exact (List.pairwise_append.mp iso.apart).2.2 r' left r here g owns' owns
  · exact entry_kernel well iso ex kernels i

theorem follow_same (here : r ∈ rest) (p : List (Fin 512)) :
    s'.memory.follow 4 r p = s.memory.follow 4 r p :=
  Memory.follow_congr (fun _ _ _ leads _ i =>
    Memory.link?_congr (entry_beside well iso ex here leads i)) p

theorem owns_same (here : r ∈ rest) : s'.Owns r f ↔ s.Owns r f := by
  simp only [Owns, follow_same well iso ex here]

/-- No other tree notices the exchange. -/
theorem translate_beside (other : r = kernel ∨ r ∈ rest) (b : Nat) :
    s'.memory.translate r b = s.memory.translate r b := by
  rcases other with rfl | here
  · have same := fun p g (leads : s₀.memory.follow 4 r p = some g) =>
      entry_kernel well iso ex leads
    have before := fun p => Memory.follow_congr (m := s₀.memory) (fun p g _ leads _ i =>
      Memory.link?_congr (iso.intact p g leads i)) p
    refine Memory.walk_congr (Entry.alike_of_eq (same [] r Memory.follow_nil _)) fun p g leads i =>
      Entry.alike_of_eq (same _ g ((before _).symm.trans leads) i)
  · exact Memory.walk_congr (Entry.alike_of_eq (entry_beside well iso ex here Memory.follow_nil _))
      fun p g leads i => Entry.alike_of_eq (entry_beside well iso ex here leads i)

theorem space_beside (here : r ∈ rest) : Space kernel s₀ s' r := by
  have there : r ∈ gone ++ rest := List.mem_append_right gone here
  have space := iso.spaces r there
  have same := fun p g (leads : s.memory.follow 4 r p = some g) =>
    entry_beside well iso ex here leads
  refine ⟨space.wellFormed.congr (fun p f leads => ?taken) same, fun i low => ?lower,
    fun f owns => space.fresh f ((owns_same well iso ex here).mp owns),
    fun i p g high leads short j => ?small⟩
  case taken =>
    refine (ex.taken f).mpr (.inl ⟨space.wellFormed.taken p f leads, fun r' left owns' => ?_⟩)
    rcases iso.owns_or space leads with owns | kernels
    · exact (List.pairwise_append.mp iso.apart).2.2 r' left r here f owns' owns
    · exact iso.not_owns_of_taken (List.mem_append_left rest left) (well.taken p f kernels) owns'
  case lower => rw [same [] r Memory.follow_nil, space.lower i low]
  case small =>
    rw [follow_same well iso ex here] at leads
    rw [same _ g leads]
    exact space.small i p g high leads short j

/-- The trees are isolated after an exchange, if the new ones are. -/
theorem isolated_exchange (spaces : ∀ r ∈ new, Space kernel s₀ s' r)
    (apart : new.Pairwise fun r r' => ∀ f, s'.Owns r f → ¬ s'.Owns r' f) :
    Isolated kernel s₀ s' (new ++ rest) := by
  obtain ⟨-, others, across⟩ := List.pairwise_append.mp iso.apart
  have owns := fun {r f} (here : r ∈ rest) => owns_same (f := f) well iso ex here
  refine ⟨ex.capacity.trans iso.capacity,
    fun p g leads i => (entry_kernel well iso ex leads i).trans (iso.intact p g leads i),
    fun r here => ?spaces, List.pairwise_append.mpr ⟨apart, ?rest, fun r here r' there f mine => ?cross⟩,
    fun f => ?taken⟩
  case spaces =>
    rcases List.mem_append.mp here with here | here
    · exact spaces r here
    · exact space_beside well iso ex here
  case rest =>
    refine others.imp_of_mem fun here there apart f => ?_
    rw [owns here, owns there]
    exact apart f
  case cross =>
    rw [owns there]
    intro theirs
    rcases ex.fresh r here f mine with ⟨r'', left, before⟩ | free
    · exact across r'' left r' there f before theirs
    · rw [iso.taken_of_owns (List.mem_append_right gone there) theirs] at free
      cases free
  case taken =>
    rw [ex.taken]
    constructor
    · rintro (⟨taken, not⟩ | ⟨r, here, mine⟩)
      · rcases (iso.taken f).mp taken with start | ⟨r, here, before⟩
        · exact .inl start
        · rcases List.mem_append.mp here with here | here
          · exact absurd before (not r here)
          · exact .inr ⟨r, List.mem_append_right new here, (owns here).mpr before⟩
      · exact .inr ⟨r, List.mem_append_left rest here, mine⟩
    · rintro (start | ⟨r, here, now⟩)
      · refine .inl ⟨(iso.taken f).mpr (.inl start), fun r left => ?_⟩
        exact iso.not_owns_of_taken (List.mem_append_left rest left) start
      · rcases List.mem_append.mp here with here | here
        · exact .inr ⟨r, here, now⟩
        · have before := (owns here).mp now
          refine .inl ⟨iso.taken_of_owns (List.mem_append_right gone here) before, ?_⟩
          exact fun r' left mine => across r' left r here f mine before

end

/-! ## The tree that changes -/

theorem Space.plain (space : Space kernel s₀ s r) {i : Fin 512} (high : userFirst ≤ i.val)
    (linked : s.memory.link? 4 r i = some f) : s.Plain 3 f := by
  intro p g leads full j
  refine space.small i p g high ((Memory.follow_link linked).trans leads) ?_ j
  rw [← full]
  exact Nat.lt_succ_self _

/-! ### It grows -/

section
variable (well : s₀.WellFormed 4 kernel) (iso : Isolated kernel s₀ s users) (here : root ∈ users)
  (grown : Grown 4 root s s') (spared : Spared userFirst 4 root s s')
include iso here spared

omit iso here in
theorem entry_spared (taken : s.frames.isTaken g = true) (not : ¬ s.Owns root g) (i : Fin 512) :
    s'.memory.entry g i = s.memory.entry g i :=
  spared g taken (fun _ high _ leads => not (owns_of_follow high leads)) i fun same =>
    absurd (same ▸ owns_root s root) not

theorem lower_spared {i : Fin 512} (low : i.val < userFirst) :
    s'.memory.entry root i = s₀.memory.entry kernel i := by
  have space := iso.spaces root here
  rw [← space.lower i low]
  exact spared root (space.wellFormed.taken [] root Memory.follow_nil)
    (fun i _ p => space.wellFormed.not_follow_root) i fun _ => low

include well

/-- What the tree shares with the kernel stays as it is. -/
theorem follow_spared {i : Fin 512} (low : i.val < userFirst) (p : List (Fin 512)) :
    s'.memory.follow 4 root (i :: p) = s₀.memory.follow 4 kernel (i :: p) := by
  refine follow_lower (fun p g leads i => ?_) (lower_spared iso here spared low) p
  rw [entry_spared spared (iso.taken_of_kernel well leads)
    (iso.not_owns_of_taken here (well.taken p g leads)), iso.intact p g leads]

include grown

/-- A tree that grows in its upper half exchanges its frames for them and new ones. -/
theorem exchange_grown : Exchange [root] [root] s s' := by
  refine ⟨grown.capacity, fun g taken not => entry_spared spared taken (not root (.head _)),
    fun f => ?taken, List.forall_mem_singleton.mpr ?fresh⟩
  case taken =>
    rw [grown.taken]
    constructor
    · rintro (taken | ⟨p, leads⟩)
      · by_cases owns : s.Owns root f
        · obtain ⟨p, up, leads⟩ := owns
          exact .inr ⟨root, .head _, p, up, grown.keeps p f leads⟩
        · exact .inl ⟨taken, List.forall_mem_singleton.mpr owns⟩
      · rcases upper_or p with up | ⟨i, q, rfl, low⟩
        · exact .inr ⟨root, .head _, p, up, leads⟩
        · rw [follow_spared well iso here spared low] at leads
          have start := well.taken _ f leads
          refine .inl ⟨(iso.taken f).mpr (.inl start), List.forall_mem_singleton.mpr ?_⟩
          exact iso.not_owns_of_taken here start
    · rintro (⟨taken, -⟩ | ⟨r, same, p, up, leads⟩)
      · exact .inl taken
      · rw [List.mem_singleton.mp same] at leads
        exact .inr ⟨p, leads⟩
  case fresh =>
    rintro f ⟨p, up, leads⟩
    rcases grown.fresh p f leads with before | free
    · exact .inl ⟨root, .head _, p, up, before⟩
    · exact .inr free

omit well in
theorem space_grown : Space kernel s₀ s' root := by
  have space := iso.spaces root here
  refine ⟨grown.wellFormed space.wellFormed, fun i => lower_spared iso here spared,
    fun f owns => ?free, fun i p g high leads short j => ?small⟩
  case free =>
    obtain ⟨p, up, leads⟩ := owns
    rcases grown.fresh p f leads with before | free
    · exact space.fresh f ⟨p, up, before⟩
    · exact iso.free_of_free free
  case small =>
    rcases grown.fresh _ g leads with before | free
    · rw [(grown.old _ g before (Nat.succ_lt_succ short) j).huge]
      exact space.small i p g high before short j
    · rw [(grown.new _ g leads free j).1.huge]
      rfl

end

/-! ### It loses slots -/

section
variable (iso : Isolated kernel s₀ s users) (here : root ∈ users)
  (emptied : Emptied slots 4 root s s') (high : ∀ i ∈ slots, userFirst ≤ i.val)
include high

/-- What hangs from the slots belongs to the tree. -/
theorem owns_of_hung (hung : ∃ i ∈ slots, ∃ p, s.memory.follow 4 root (i :: p) = some f) :
    s.Owns root f := by
  obtain ⟨i, listed, p, leads⟩ := hung
  exact owns_of_follow (high i listed) leads

include iso here emptied

theorem taken_emptied (f : Nat) :
    s'.frames.isTaken f = true ↔ s.frames.isTaken f = true ∧
      ¬ ∃ i ∈ slots, ∃ p, s.memory.follow 4 root (i :: p) = some f := by
  have known : (∃ i ∈ slots, ∃ p, s.memory.follow 4 root (i :: p) = some f) →
      f < s.frames.capacity := fun hung => by
    rw [iso.capacity]
    exact Frames.lt_capacity_of_free ((iso.spaces root here).fresh f (owns_of_hung high hung))
  rw [← Bool.not_eq_false, ← Bool.not_eq_false, emptied.free, not_or,
    and_iff_right_of_imp known]

omit high in
theorem owns_of_emptied (owns : s'.Owns root f) : s.Owns root f := by
  obtain ⟨p, up, leads⟩ := owns
  exact ⟨p, up, emptied.follow_of (iso.spaces root here).wellFormed leads⟩

omit high in
theorem owns_emptied (owns : s.Owns root f)
    (not : ¬ ∃ i ∈ slots, ∃ p, s.memory.follow 4 root (i :: p) = some f) : s'.Owns root f := by
  rcases owns_iff.mp owns with rfl | ⟨i, p, up, leads⟩
  · exact owns_root s' f
  · refine owns_of_follow up ((emptied.follow_iff (iso.spaces root here).wellFormed).mpr
      ⟨fun listed => ?_, leads⟩)
    exact not ⟨i, listed, p, leads⟩

/-- A tree that loses slots of its upper half exchanges its frames for those that are left. -/
theorem exchange_emptied : Exchange [root] [root] s s' := by
  have well := emptied.wellFormed (iso.spaces root here).wellFormed
  refine ⟨emptied.capacity, fun g _ not i => ?entry, fun f => ?taken,
    List.forall_mem_singleton.mpr fun f owns => ?fresh⟩
  case entry =>
    have not := not root (.head _)
    refine emptied.touched g (fun same => not (same ▸ owns_root s root)) (fun i listed p leads => ?_) i
    exact not (owns_of_hung high ⟨i, listed, p, leads⟩)
  case taken =>
    rw [taken_emptied iso here emptied high]
    constructor
    · rintro ⟨taken, not⟩
      by_cases owns : s.Owns root f
      · exact .inr ⟨root, .head _, owns_emptied iso here emptied owns not⟩
      · exact .inl ⟨taken, List.forall_mem_singleton.mpr owns⟩
    · rintro (⟨taken, not⟩ | ⟨r, same, owns⟩)
      · exact ⟨taken, fun hung => not root (.head _) (owns_of_hung high hung)⟩
      · rw [List.mem_singleton.mp same] at owns
        obtain ⟨p, -, leads⟩ := owns
        exact (taken_emptied iso here emptied high f).mp (well.taken p f leads)
  case fresh => exact .inl ⟨root, .head _, owns_of_emptied iso here emptied owns⟩

theorem space_emptied : Space kernel s₀ s' root := by
  have space := iso.spaces root here
  refine ⟨emptied.wellFormed space.wellFormed, fun i low => ?lower,
    fun f owns => space.fresh f (owns_of_emptied iso here emptied owns),
    fun i p g up leads short j => ?small⟩
  case lower =>
    rw [emptied.kept i fun listed => absurd low (Nat.not_lt_of_le (high i listed))]
    exact space.lower i low
  case small =>
    rcases emptied.entry_of_follow space.wellFormed leads j with same | clear
    · rw [same]
      exact space.small i p g up (emptied.follow_of space.wellFormed leads) short j
    · rw [clear]
      rfl

end

/-- A tree that is taken down gives all its frames back. -/
theorem exchange_drop (iso : Isolated kernel s₀ s users) (here : root ∈ users)
    (bounded : s₀.Bounded) : Exchange [root] [] s (s.dropUserTree root) := by
  have space := iso.spaces root here
  have emptied := emptied_unmapSlots ((List.finRange 512).drop userFirst) s space.wellFormed
    fun i high _ linked => space.plain (mem_upper.mp high) linked
  have ex := exchange_emptied iso here emptied fun i => mem_upper.mp
  rw [dropUserTree]
  generalize ((List.finRange 512).drop userFirst).foldl (fun s i => s.unmapSlot root i) s = s₁ at *
  have alone : ∀ {f}, s₁.Owns root f → f = root := by
    intro f owns
    refine (owns_iff.mp owns).resolve_right ?_
    rintro ⟨i, p, high, leads⟩
    rw [Memory.follow_of_zero (emptied.cleared i (mem_upper.mpr high))] at leads
    cases leads
  have known : root < s₁.frames.capacity := by
    rw [ex.capacity, iso.capacity]
    exact Frames.lt_capacity_of_free (space.fresh root (owns_root s root))
  have small : root < Word.max := by
    rw [ex.capacity, iso.capacity] at known
    exact Nat.lt_of_lt_of_le known (Nat.le_trans bounded (by decide))
  have taken : ∀ f, (s₁.frames.release root 1).isTaken f = true ↔
      s₁.frames.isTaken f = true ∧ f ≠ root := by
    intro f
    rw [← Bool.not_eq_false, ← Bool.not_eq_false, Frames.free_after_release_one small, not_or,
      and_iff_right_of_imp fun same : f = root => same ▸ known]
  refine ⟨(Frames.capacity_release ..).trans ex.capacity, ex.entry, fun f => ?taken,
    fun r none => by cases none⟩
  case taken =>
    rw [taken, ex.taken]
    constructor
    · rintro ⟨before | ⟨r, same, owns⟩, other⟩
      · exact .inl before
      · rw [List.mem_singleton.mp same] at owns
        exact absurd (alone owns) other
    · rintro (⟨taken, not⟩ | ⟨r, none, -⟩)
      · exact ⟨.inl ⟨taken, not⟩, fun same => not root (.head _) (same ▸ owns_root s root)⟩
      · cases none

end Nucleus.Store
