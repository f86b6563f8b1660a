import Nucleus.Proofs.Frame.Serving
import Nucleus.Proofs.Paging.Paths

/-!
# Teardown

Unmapping takes trees down from the leaves up. What hung below a slot is free afterwards and the
slot is clear, and nothing else has changed.

* `Drained`, `Emptied`: what happens when a whole table, or some slots of it, are taken down.
* `Emptied.follow_iff`, `Emptied.wellFormed`: what is left of the tree.
* `emptied_drop`, `drained_drain`, `emptied_unmap`: unmapping does just that.
-/

namespace Nucleus.Store

/-- No page is at a level-1 entry that looks like a large one. -/
def Plain (s : Store) (level table : Nat) : Prop :=
  ∀ p g, s.memory.follow level table p = some g → p.length + 1 = level →
    ∀ i, (s.memory.entry g i).huge = false

/-- From `s` to `s'` all that hangs below a table was given back. -/
structure Drained (level table : Nat) (s s' : Store) : Prop where
  capacity : s'.frames.capacity = s.frames.capacity
  free : ∀ f, s'.frames.isTaken f = false ↔ s.frames.isTaken f = false ∨
    f < s.frames.capacity ∧ ∃ i p, s.memory.follow level table (i :: p) = some f
  touched : ∀ g, (∀ p, s.memory.follow level table p ≠ some g) →
    ∀ i, s'.memory.entry g i = s.memory.entry g i

/-- From `s` to `s'` all that hangs below some slots of a table was given back, and they are
clear. -/
structure Emptied (slots : List (Fin 512)) (level table : Nat) (s s' : Store) : Prop where
  capacity : s'.frames.capacity = s.frames.capacity
  free : ∀ f, s'.frames.isTaken f = false ↔ s.frames.isTaken f = false ∨
    f < s.frames.capacity ∧ ∃ i ∈ slots, ∃ p, s.memory.follow level table (i :: p) = some f
  cleared : ∀ i ∈ slots, s'.memory.entry table i = .zero
  kept : ∀ i, i ∉ slots → s'.memory.entry table i = s.memory.entry table i
  touched : ∀ g, g ≠ table → (∀ i ∈ slots, ∀ p, s.memory.follow level table (i :: p) ≠ some g) →
    ∀ j, s'.memory.entry g j = s.memory.entry g j

variable {s s₁ s' s'' t : Store} {slots : List (Fin 512)} {level table f g : Nat} {i : Fin 512}
  {p : List (Fin 512)}

theorem Plain.below (plain : s.Plain (level + 1) table)
    (linked : s.memory.link? (level + 1) table i = some f) : s.Plain level f := by
  intro p g leads full
  exact plain (i :: p) g ((Memory.follow_link linked).trans leads) (congrArg Nat.succ full)

theorem Plain.congr (plain : s.Plain level table)
    (same : ∀ p g, s.memory.follow level table p = some g →
      ∀ i, s'.memory.entry g i = s.memory.entry g i) : s'.Plain level table := by
  intro p g leads full i
  have path := Memory.follow_congr (fun p g _ leads l i => Memory.link?_congr (same p g leads i)) p
  have before : s.memory.follow level table p = some g := path.symm.trans leads
  rw [same p g before]
  exact plain p g before full i

/-! ## What is left -/

namespace Emptied

theorem follow_kept (emptied : Emptied slots level table s s') (well : s.WellFormed level table)
    (out : i ∉ slots) (p : List (Fin 512)) :
    s'.memory.follow level table (i :: p) = s.memory.follow level table (i :: p) := by
  refine Memory.follow_slot (emptied.kept i out) (fun q g here k => ?_) p
  refine emptied.touched g ?_ (fun j listed q' leads' => ?_) k
  · rintro rfl
    exact well.not_follow_root here
  · exact out (well.eq_of_follow here leads' ▸ listed)

/-- The paths that are left are those through other slots. -/
theorem follow_iff (emptied : Emptied slots level table s s') (well : s.WellFormed level table) :
    s'.memory.follow level table (i :: p) = some f ↔
      i ∉ slots ∧ s.memory.follow level table (i :: p) = some f := by
  by_cases listed : i ∈ slots
  · rw [Memory.follow_of_zero (emptied.cleared i listed)]
    exact ⟨fun h => (by cases h), fun h => absurd listed h.1⟩
  · rw [emptied.follow_kept well listed]
    exact (and_iff_right listed).symm

theorem follow_of (emptied : Emptied slots level table s s') (well : s.WellFormed level table)
    (leads : s'.memory.follow level table p = some f) : s.memory.follow level table p = some f := by
  cases p with
  | nil => exact Memory.follow_nil.trans (Memory.follow_nil.symm.trans leads)
  | cons i p => exact ((emptied.follow_iff well).mp leads).2

/-- The entries of what is left are as before, or clear. -/
theorem entry_of_follow (emptied : Emptied slots level table s s')
    (well : s.WellFormed level table) (leads : s'.memory.follow level table p = some g)
    (j : Fin 512) :
    s'.memory.entry g j = s.memory.entry g j ∨ s'.memory.entry g j = .zero := by
  cases p with
  | nil =>
    obtain rfl : table = g := Option.some.inj (Memory.follow_nil.symm.trans leads)
    by_cases listed : j ∈ slots
    · exact .inr (emptied.cleared j listed)
    · exact .inl (emptied.kept j listed)
  | cons i p =>
    obtain ⟨out, before⟩ := (emptied.follow_iff well).mp leads
    refine .inl (emptied.touched g ?_ (fun k listed q leads' => ?_) j)
    · rintro rfl
      exact well.not_follow_root before
    · exact out (well.eq_of_follow before leads' ▸ listed)

theorem wellFormed (emptied : Emptied slots level table s s') (well : s.WellFormed level table) :
    s'.WellFormed level table := by
  refine ⟨fun p q f hp hq => ?unique, fun p f leads => ?taken,
    fun p g leads short j absent => ?absent⟩
  case unique =>
    exact well.unique p q f (emptied.follow_of well hp) (emptied.follow_of well hq)
  case taken =>
    have before := emptied.follow_of well leads
    rw [← Bool.not_eq_false, emptied.free]
    rintro (free | ⟨-, i, listed, q, leads'⟩)
    · exact well.not_free before free
    · cases well.unique p _ f before leads'
      exact ((emptied.follow_iff well).mp leads).1 listed
  case absent =>
    rcases emptied.entry_of_follow well leads j with same | clear
    · rw [same] at absent ⊢
      exact well.absent p g (emptied.follow_of well leads) short j absent
    · exact clear

theorem plain (emptied : Emptied slots level table s s') (well : s.WellFormed level table)
    (plain : s.Plain level table) : s'.Plain level table := by
  intro p g leads full j
  rcases emptied.entry_of_follow well leads j with same | clear
  · rw [same]
    exact plain p g (emptied.follow_of well leads) full j
  · rw [clear]
    rfl

theorem nil (s : Store) (level table : Nat) : Emptied [] level table s s := by
  refine ⟨rfl, fun f => ?_, fun i listed => (by cases listed), fun _ _ => rfl, fun _ _ _ _ => rfl⟩
  simp

theorem cons (first : Emptied [i] level table s s') (well : s.WellFormed level table)
    (rest : Emptied slots level table s' s'') : Emptied (i :: slots) level table s s'' := by
  have single : ∀ {j}, j ∉ [i] ↔ j ≠ i := by simp
  refine ⟨rest.capacity.trans first.capacity, fun f => ?free, fun j listed => ?cleared,
    fun j out => ?kept, fun g other beside j => ?touched⟩
  case free =>
    rw [rest.free, first.free, first.capacity, or_assoc, ← and_or_left]
    refine or_congr Iff.rfl (and_congr Iff.rfl ?_)
    constructor
    · rintro (⟨j, listed, p, leads⟩ | ⟨j, listed, p, leads⟩)
      · exact ⟨j, List.mem_cons.mpr (.inl (List.mem_singleton.mp listed)), p, leads⟩
      · exact ⟨j, .tail i listed, p, ((first.follow_iff well).mp leads).2⟩
    · rintro ⟨j, listed, p, leads⟩
      by_cases here : j = i
      · exact .inl ⟨j, List.mem_singleton.mpr here, p, leads⟩
      · refine .inr ⟨j, (List.mem_cons.mp listed).resolve_left here, p, ?_⟩
        exact (first.follow_iff well).mpr ⟨single.mpr here, leads⟩
  case cleared =>
    by_cases later : j ∈ slots
    · exact rest.cleared j later
    · have here : j = i := (List.mem_cons.mp listed).resolve_right later
      rw [rest.kept j later]
      exact first.cleared j (List.mem_singleton.mpr here)
  case kept =>
    rw [List.mem_cons, not_or] at out
    rw [rest.kept j out.2, first.kept j (single.mpr out.1)]
  case touched =>
    have beside' : ∀ k ∈ slots, ∀ p, s'.memory.follow level table (k :: p) ≠ some g :=
      fun k listed p leads => beside k (.tail i listed) p ((first.follow_iff well).mp leads).2
    rw [rest.touched g other beside' j]
    refine first.touched g other (fun k listed => beside k ?_) j
    exact List.mem_cons.mpr (.inl (List.mem_singleton.mp listed))

end Emptied

/-! ## One slot -/

theorem ne_of_follow_link (well : s.WellFormed (level + 1) table)
    (linked : s.memory.link? (level + 1) table i = some f)
    (leads : s.memory.follow level f p = some g) : table ≠ g := by
  rintro rfl
  exact well.not_follow_root ((Memory.follow_link (i := i) linked).trans leads)

/-- The tree below an entry does not depend on the entry. -/
theorem follow_aside (well : s.WellFormed (level + 1) table)
    (linked : s.memory.link? (level + 1) table i = some f)
    (same : ∀ g j, ¬ (table = g ∧ i = j) → t.memory.entry g j = s.memory.entry g j)
    (p : List (Fin 512)) : t.memory.follow level f p = s.memory.follow level f p :=
  Memory.follow_congr (fun _ g _ leads _ k =>
    Memory.link?_congr (same g k fun h => ne_of_follow_link well linked leads h.1)) p

/-- A slot is emptied by taking down the tree below it, giving back the frame that it names and
clearing it. It may have been written to before. -/
theorem emptied_of_drained (well : s.WellFormed (level + 1) table)
    (linked : s.memory.link? (level + 1) table i = some f) (small : f < Word.max)
    (frames : t.frames = s.frames)
    (same : ∀ g j, ¬ (table = g ∧ i = j) → t.memory.entry g j = s.memory.entry g j)
    (drained : Drained level f t s₁) {m : Memory} (clear : m.entry table i = .zero)
    (entry : ∀ g j, ¬ (table = g ∧ i = j) → m.entry g j = s₁.memory.entry g j) :
    Emptied [i] (level + 1) table s ⟨s₁.frames.release f 1, m⟩ := by
  have follow := follow_aside well linked same
  have beside : ∀ p, t.memory.follow level f p ≠ some table := fun p leads =>
    ne_of_follow_link well linked ((follow p).symm.trans leads) rfl
  refine ⟨?capacity, fun g => ?free, fun j listed => ?cleared, fun j out => ?kept,
    fun g other out j => ?touched⟩
  case capacity => rw [Frames.capacity_release, drained.capacity, frames]
  case free =>
    rw [Frames.free_after_release_one small, drained.free, drained.capacity, frames,
      or_assoc, ← and_or_left]
    refine or_congr Iff.rfl (and_congr Iff.rfl ?_)
    constructor
    · rintro (⟨j, p, leads⟩ | rfl)
      · refine ⟨i, .head _, j :: p, ?_⟩
        exact (Memory.follow_link linked).trans ((follow _).symm.trans leads)
      · exact ⟨i, .head _, [], (Memory.follow_link linked).trans Memory.follow_nil⟩
    · rintro ⟨j, listed, p, leads⟩
      rw [List.mem_singleton.mp listed, Memory.follow_link linked] at leads
      cases p with
      | nil => exact .inr (Option.some.inj (leads.symm.trans Memory.follow_nil))
      | cons k p => exact .inl ⟨k, p, (follow _).trans leads⟩
  case cleared =>
    rw [List.mem_singleton.mp listed]
    exact clear
  case kept =>
    have elsewhere : ¬ (table = table ∧ i = j) := fun h => out (List.mem_singleton.mpr h.2.symm)
    rw [entry _ _ elsewhere, drained.touched table beside, same _ _ elsewhere]
  case touched =>
    have elsewhere : ¬ (table = g ∧ i = j) := fun h => other h.1.symm
    have beside : ∀ p, t.memory.follow level f p ≠ some g := fun p leads =>
      out i (.head _) p ((Memory.follow_link linked).trans ((follow p).symm.trans leads))
    rw [entry _ _ elsewhere, drained.touched g beside, same _ _ elsewhere]

/-- A slot that names no frame of the tree is emptied by clearing it. -/
theorem emptied_of_not_link
    (none : s.memory.link? (level + 1) table i = none) :
    Emptied [i] (level + 1) table s { s with memory := s.memory.put table i .zero } := by
  refine ⟨rfl, fun g => ?free, fun j listed => ?cleared, fun j out => ?kept,
    fun g other _ j => ?touched⟩
  case free =>
    refine ⟨.inl, fun h => h.elim id ?_⟩
    rintro ⟨-, j, listed, p, leads⟩
    rw [List.mem_singleton.mp listed, Memory.follow_of_not_link none] at leads
    cases leads
  case cleared => rw [Memory.entry_put, if_pos ⟨rfl, (List.mem_singleton.mp listed).symm⟩]
  case kept => rw [Memory.entry_put, if_neg fun h => out (List.mem_singleton.mpr h.2.symm)]
  case touched => rw [Memory.entry_put, if_neg fun h => other h.1.symm]

/-- A slot that is not present is empty. -/
theorem emptied_of_absent (well : s.WellFormed (level + 1) table)
    (absent : (s.memory.entry table i).present = false) :
    Emptied [i] (level + 1) table s s := by
  refine ⟨rfl, fun g => ?free, fun j listed => ?cleared, fun _ _ => rfl, fun _ _ _ _ => rfl⟩
  case free =>
    refine ⟨.inl, fun h => h.elim id ?_⟩
    rintro ⟨-, j, listed, p, leads⟩
    rw [List.mem_singleton.mp listed, Memory.follow_of_absent absent] at leads
    cases leads
  case cleared =>
    rw [List.mem_singleton.mp listed]
    exact well.clear absent

theorem frame_small (e : Entry) : (e.frame : Nat) < Word.max :=
  Nat.lt_of_lt_of_le e.frame.isLt (by decide)

/-- Taking down an entry empties its slot, if taking down what is below drains it. -/
theorem emptied_drop {below : Store → Nat → Store} (low : level + 1 ≤ 3)
    (spec : ∀ s f, s.WellFormed level f → s.Plain level f → Drained level f s (below s f))
    (well : s.WellFormed (level + 1) table) (plain : s.Plain (level + 1) table) (i : Fin 512) :
    Emptied [i] (level + 1) table s (drop below s table i) := by
  cases present : (s.memory.entry table i).present with
  | false =>
    rw [drop, present]
    exact emptied_of_absent well present
  | true =>
    cases huge : (s.memory.entry table i).huge with
    | true =>
      -- a large page is no part of the tree, so nothing may be given back
      have none : s.memory.link? (level + 1) table i = none := by
        have inner : level ≠ 0 := by
          rintro rfl
          have small := plain [] table Memory.follow_nil rfl i
          rw [huge] at small
          cases small
        have large : (s.memory.entry table i).large (level + 1) = true := by
          simp only [Entry.large, huge, Bool.true_and, Bool.and_eq_true, decide_eq_true_eq]
          omega
        simp [Memory.link?, large]
      simp only [drop, present, huge]
      exact emptied_of_not_link none
    | false =>
      have linked : s.memory.link? (level + 1) table i =
          some ((s.memory.entry table i).frame : Nat) := by
        rw [Memory.link?_eq_some, present, Entry.large, huge]
        exact ⟨rfl, rfl, rfl⟩
      have drained := spec s _ (well.below linked) (plain.below linked)
      have still : (below s (s.memory.entry table i).frame).memory.entry table i =
          s.memory.entry table i := by
        refine drained.touched table (fun p leads => ?_) i
        exact well.not_follow_root ((Memory.follow_link (i := i) linked).trans leads)
      simp only [drop, present, huge, still]
      refine emptied_of_drained well linked (frame_small _) rfl (fun _ _ _ => rfl) drained ?_
        fun g j other => ?_
      · exact (Memory.entry_put _ _ _ _ _ _).trans (if_pos ⟨rfl, rfl⟩)
      · exact (Memory.entry_put _ _ _ _ _ _).trans (if_neg other)

theorem emptied_foldl {below : Store → Nat → Store} (low : level + 1 ≤ 3)
    (spec : ∀ s f, s.WellFormed level f → s.Plain level f → Drained level f s (below s f))
    (slots : List (Fin 512)) : ∀ s : Store, s.WellFormed (level + 1) table →
      s.Plain (level + 1) table → Emptied slots (level + 1) table s
        (slots.foldl (fun s i => drop below s table i) s) := by
  induction slots with
  | nil => exact fun s _ _ => .nil s _ _
  | cons i slots ih =>
    intro s well plain
    have first := emptied_drop low spec well plain i
    exact first.cons well (ih _ (first.wellFormed well) (first.plain well plain))

/-- Taking down every entry of a table drains it. -/
theorem drained_drain : ∀ (level : Nat) (s : Store) (table : Nat), level ≤ 3 →
    s.WellFormed level table → s.Plain level table →
    Drained level table s (drain level s table) := by
  intro level
  induction level with
  | zero =>
    intro s table _ _ _
    refine ⟨rfl, fun f => ⟨.inl, fun h => h.elim id ?_⟩, fun _ _ _ => rfl⟩
    rintro ⟨-, i, p, leads⟩
    cases leads
  | succ level ih =>
    intro s table low well plain
    have emptied := emptied_foldl low (fun s f => ih s f (Nat.le_of_succ_le low))
      (List.finRange 512) s well plain
    refine ⟨emptied.capacity, fun f => (emptied.free f).trans ?_, fun g beside j => ?_⟩
    · simp only [List.mem_finRange, true_and]
    · refine emptied.touched g ?_ (fun i _ p => beside (i :: p)) j
      rintro rfl
      exact beside [] Memory.follow_nil

/-! ## Slots of the top table -/

theorem unmapSlot_of_present (present : (s.memory.entry table i).present = true)
    (drained : drain 3 ⟨s.frames, s.memory.put table i .zero⟩ (s.memory.entry table i).frame = s₁) :
    s.unmapSlot table i =
      { s₁ with frames := s₁.frames.release (s.memory.entry table i).frame 1 } := by
  simp only [unmapSlot, present, Bool.not_true, Bool.false_eq_true, if_false, drained]

theorem emptied_unmapSlot (well : s.WellFormed 4 table) {i : Fin 512}
    (plain : ∀ f, s.memory.link? 4 table i = some f → s.Plain 3 f) :
    Emptied [i] 4 table s (s.unmapSlot table i) := by
  cases present : (s.memory.entry table i).present with
  | false =>
    have same : s.unmapSlot table i = s := by
      simp only [unmapSlot, present, Bool.not_false, if_true]
    rw [same]
    exact emptied_of_absent well present
  | true =>
    have linked : s.memory.link? 4 table i = some ((s.memory.entry table i).frame : Nat) := by
      rw [Memory.link?_eq_some, present]
      exact ⟨rfl, by simp [Entry.large], rfl⟩
    have same : ∀ g j, ¬ (table = g ∧ i = j) →
        (s.memory.put table i .zero).entry g j = s.memory.entry g j :=
      fun g j other => (Memory.entry_put _ _ _ _ _ _).trans (if_neg other)
    have inside : ∀ p g, s.memory.follow 3 (s.memory.entry table i).frame p = some g →
        ∀ j, (s.memory.put table i .zero).entry g j = s.memory.entry g j :=
      fun p g leads j => same g j fun h => ne_of_follow_link well linked leads h.1
    -- the slot is cleared first, and the tree that hung there is taken down afterwards
    have drained := drained_drain 3 ⟨s.frames, s.memory.put table i .zero⟩ _ (Nat.le_refl 3)
      ((well.below linked).congr (well.below linked).taken inside) ((plain _ linked).congr inside)
    generalize after : drain 3 ⟨s.frames, s.memory.put table i .zero⟩ _ = s₁ at drained
    have clear : s₁.memory.entry table i = .zero := by
      refine (drained.touched table (fun p leads => ?_) i).trans ?_
      · rw [follow_aside (t := ⟨s.frames, s.memory.put table i .zero⟩) well linked same] at leads
        exact ne_of_follow_link well linked leads rfl
      · exact (s.memory.entry_put table table i i .zero).trans (if_pos ⟨rfl, rfl⟩)
    rw [unmapSlot_of_present present after]
    exact emptied_of_drained (t := ⟨s.frames, s.memory.put table i .zero⟩) well linked
      (frame_small _) rfl same drained clear fun _ _ _ => rfl

theorem emptied_unmap (well : s.WellFormed 4 table) (plain : s.Plain 4 table) (address : Nat) :
    Emptied [(Linear.ofNat address).part 4] 4 table s (s.unmap table address) :=
  emptied_unmapSlot well fun _ linked => plain.below linked

end Nucleus.Store
