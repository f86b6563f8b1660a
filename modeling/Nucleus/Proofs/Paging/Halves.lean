import Nucleus.Proofs.Paging.Mapping
import Nucleus.Proofs.Paging.Teardown

/-!
# Halves of a tree

A task's tree is its own in the upper half of its top table, and shares the lower half. Work on the
upper half leaves the lower one alone.

* `Spared`: nothing is written but some slots of a table and what hangs below them.
* `spared_map`, `spared_handleFault`: mapping from a slot on is like that.
* `emptied_unmapSlots`: taking down slots one after the other empties them all.
* `entry_shareLowerHalf`: what a shared half looks like.
-/

namespace Nucleus.Store
open Platform

variable {s s' s'' : Store} {k level table f : Nat} {i : Fin 512} {slots : List (Fin 512)}

/-! ## Growth of some slots -/

/-- From `s` to `s'` nothing was written to but the slots of a table from `k` on, what hung below
them, and frames that were free. -/
def Spared (k level table : Nat) (s s' : Store) : Prop :=
  ∀ g, s.frames.isTaken g = true →
    (∀ i : Fin 512, k ≤ i.val → ∀ p, s.memory.follow level table (i :: p) ≠ some g) →
    ∀ j : Fin 512, (g = table → j.val < k) → s'.memory.entry g j = s.memory.entry g j

theorem Spared.refl (s : Store) : Spared k level table s s :=
  fun _ _ _ _ _ => rfl

theorem Spared.trans (first : Spared k level table s s') (grown : Grown level table s s')
    (second : Spared k level table s' s'') : Spared k level table s s'' := by
  intro g taken beside j top
  rw [second g ((grown.taken g).mpr (.inl taken)) (fun i high p leads => ?_) j top]
  · exact first g taken beside j top
  · rcases grown.fresh _ g leads with before | free
    · exact beside i high p before
    · rw [taken] at free
      cases free

theorem spared_descend (well : s.WellFormed (level + 1) table) (bounded : s.Bounded) {a : Linear}
    (high : k ≤ (a.part (level + 1)).val) :
    Spared k (level + 1) table s (s.descend (level + 1) table a).value.2 := by
  have other : ∀ {g : Nat} {j : Fin 512}, (g = table → j.val < k) →
      ¬ (table = g ∧ a.part (level + 1) = j) := by
    rintro g j top ⟨rfl, rfl⟩
    exact Nat.not_lt_of_le high (top rfl)
  apply descend_cases (P := fun r => Spared k (level + 1) table s r.2)
  case huge => exact .refl s
  case refused => exact fun _ => .refl s
  case present =>
    intro _ _ g _ _ j top
    rw [entry_open, if_neg (other top)]
  case made =>
    intro absent f frames granted g taken _ j top
    have made := made_of_allocate well bounded absent granted
    rw [made.entry, if_neg (other top), if_neg]
    rintro rfl
    rw [made.free] at taken
    cases taken

/-- What grows below a slot spares the slots before it. -/
theorem Grown.spared (grown : Grown level f s s')
    (linked : s.memory.link? (level + 1) table i = some f) (high : k ≤ i.val) :
    Spared k (level + 1) table s s' := by
  intro g taken beside j _
  exact grown.entry_beside (fun p leads => beside i high p ((Memory.follow_link linked).trans leads))
    taken j

theorem part_advance (a : Linear) : (a.advance 4).part 4 = Fin.ofNat 512 (a.part 4 + 1) := rfl

theorem spared_fillSlots (slots : Nat) :
    ∀ (s : Store) (a : Linear) (n : Nat), s.WellFormed 4 table → s.Bounded →
      (0 < slots → k ≤ (a.part 4).val ∧ (a.part 4).val + slots ≤ 512) →
      Spared k 4 table s (fillSlots (fill 3) 4 table slots s a n).value.2 := by
  induction slots with
  | zero =>
    intro s a n _ _ _
    cases n <;> exact .refl s
  | succ slots ih =>
    intro s a n well bounded room
    obtain ⟨high, fits⟩ := room (Nat.succ_pos slots)
    cases n with
    | zero => exact .refl s
    | succ n =>
      have first := spared_descend (k := k) well bounded high
      obtain ⟨grown, linked⟩ := grown_descend well bounded a
      rw [fillSlots, Logged.value_bind]
      rcases went : (s.descend 4 table a).value with ⟨err | f, s₁⟩ <;>
        rw [went] at first grown linked
      · exact first
      · have well₁ := grown.wellFormed well
        have inner := grown_fill 3 s₁ f a (n + 1) (well₁.below (linked f rfl))
          (grown.bounded bounded)
        have below := grown.trans (grown_below well₁ (linked f rfl) inner)
        have second := first.trans grown (inner.spared (linked f rfl) high)
        simp only [Logged.value_bind]
        rcases filled : (fill 3 s₁ f a (n + 1)).value with ⟨err | left, s₂⟩ <;>
          rw [filled] at below second
        · exact second
        · refine second.trans below (ih s₂ _ left (below.wellFormed well) (below.bounded bounded) ?_)
          -- the last slot is the last to be gone through, so the count does not start over
          intro more
          have next : ((a.advance 4).part 4).val = (a.part 4).val + 1 := by
            rw [part_advance]
            exact Nat.mod_eq_of_lt (by omega)
          omega

theorem spared_map (well : s.WellFormed 4 table) (bounded : s.Bounded) {address : Nat}
    (high : k ≤ ((Linear.ofNat address).part 4).val) (n : Nat) :
    Spared k 4 table s (s.map table address n).value.2 := by
  rw [value_map]
  apply spared_fillSlots _ s _ n well bounded
  intro _
  have slots := Nat.add_sub_of_le (Nat.le_of_lt ((Linear.ofNat address).part 4).isLt)
  exact ⟨high, Nat.le_of_eq slots⟩

theorem spared_handleFault (well : s.WellFormed 4 table) (bounded : s.Bounded) (code : FaultCode)
    {address : Nat} (high : k ≤ ((Linear.ofNat address).part 4).val) (window : Span) :
    Spared k 4 table s (s.handleFault table code address window).value.2 := by
  rw [handleFault]
  split
  · exact .refl s
  · exact spared_map well bounded high 1

/-! ## Teardown of some slots -/

theorem Emptied.plain_below (emptied : Emptied slots (level + 1) table s s')
    (well : s.WellFormed (level + 1) table)
    (plain : ∀ f, s.memory.link? (level + 1) table i = some f → s.Plain level f)
    (linked : s'.memory.link? (level + 1) table i = some f) : s'.Plain level f := by
  have out : i ∉ slots := by
    intro listed
    have absent : (s'.memory.entry table i).present = false := by
      rw [emptied.cleared i listed]
      rfl
    rw [Memory.link?_of_absent absent] at linked
    cases linked
  have before : s.memory.link? (level + 1) table i = some f :=
    (Memory.link?_congr (emptied.kept i out)).symm.trans linked
  refine (plain f before).congr fun p g leads j => ?_
  have here : s.memory.follow (level + 1) table (i :: p) = some g :=
    (Memory.follow_link before).trans leads
  refine emptied.touched g ?_ (fun j listed q leads' => ?_) j
  · rintro rfl
    exact well.not_follow_root here
  · exact out (well.eq_of_follow here leads' ▸ listed)

/-- Taking down slots of the top table one after the other empties them all. -/
theorem emptied_unmapSlots (slots : List (Fin 512)) : ∀ s : Store, s.WellFormed 4 table →
    (∀ i ∈ slots, ∀ f, s.memory.link? 4 table i = some f → s.Plain 3 f) →
    Emptied slots 4 table s (slots.foldl (fun s i => s.unmapSlot table i) s) := by
  induction slots with
  | nil => exact fun s _ _ => .nil s _ _
  | cons i slots ih =>
    intro s well plain
    have first := emptied_unmapSlot well (plain i (.head _))
    refine first.cons well (ih _ (first.wellFormed well) fun j listed f linked => ?_)
    exact first.plain_below well (plain j (.tail i listed)) linked

/-! ## Sharing -/

theorem mem_lower {i : Fin 512} : i ∈ (List.finRange 512).take userFirst ↔ i.val < userFirst := by
  rw [List.mem_take_iff_getElem]
  simp only [List.getElem_finRange, List.length_finRange, Fin.ext_iff, Fin.val_cast]
  constructor
  · rintro ⟨j, within, rfl⟩
    exact Nat.lt_of_lt_of_le within (Nat.min_le_left _ _)
  · exact fun low => ⟨i, Nat.lt_min.mpr ⟨low, i.isLt⟩, rfl⟩

theorem mem_upper {i : Fin 512} : i ∈ (List.finRange 512).drop userFirst ↔ userFirst ≤ i.val := by
  rw [List.mem_drop_iff_getElem]
  simp only [List.getElem_finRange, List.length_finRange, Fin.ext_iff, Fin.val_cast]
  constructor
  · rintro ⟨j, -, same⟩
    exact same ▸ Nat.le_add_right _ _
  · intro high
    exact ⟨i - userFirst, by omega, Nat.add_sub_of_le high⟩

theorem entry_shareLowerHalf (m : Memory) {source root : Nat} (other : root ≠ source) (g : Nat)
    (j : Fin 512) : (shareLowerHalf m source root).entry g j =
      if root = g ∧ j.val < userFirst then m.entry source j else m.entry g j := by
  have copied (slots : List (Fin 512)) : ∀ m : Memory,
      (slots.foldl (fun m i => m.put root i (m.entry source i)) m).entry g j =
        if root = g ∧ j ∈ slots then m.entry source j else m.entry g j := by
    induction slots with
    | nil => intro m; simp
    | cons i slots ih =>
      intro m
      have kept : (m.put root i (m.entry source i)).entry source j = m.entry source j := by
        rw [Memory.entry_put, if_neg fun h => other h.1]
      rw [List.foldl_cons, ih, kept, Memory.entry_put]
      by_cases here : root = g <;> by_cases now : i = j <;> simp [here, now, eq_comm (a := j)]
  rw [shareLowerHalf, copied]
  simp only [mem_lower]

end Nucleus.Store
