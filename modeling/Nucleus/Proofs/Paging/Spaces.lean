import Nucleus.Proofs.Paging.Isolation
import Nucleus.Proofs.Paging.Ownership

/-!
# Trees of tasks

Trees of tasks are made from one kernel tree, changed in their upper halves, and taken down again,
in any order and with any outcome.

* `Shared`: what a store can come to, with the trees that are in use.
* `Founded.exchange`, `Founded.space`: what a new tree is made of.
* `isolated_shared`: the trees are isolated all along.
* `trees_isolated`: so no tree notices what is done to another, and all frames come back.
-/

namespace Nucleus.Store
open Platform

/-- Whether an address is looked up in the upper half of the top table. -/
def InUpperHalf (address : Nat) : Prop := userFirst ≤ ((Linear.ofNat address).part 4).val

instance (address : Nat) : Decidable (InUpperHalf address) :=
  inferInstanceAs (Decidable (userFirst ≤ _))

/-- What can be done to a tree from one address on. -/
inductive Change where
  | map (address pages : Nat)
  | fault (code : FaultCode) (address : Nat) (window : Span)
  | unmap (address : Nat)

def Change.address : Change → Nat
  | .map address _ | .fault _ address _ | .unmap address => address

def Change.apply (s : Store) (root : Nat) : Change → Store
  | .map address pages => (s.map root address pages).value.2
  | .fault code address window => (s.handleFault root code address window).value.2
  | .unmap address => s.unmap root address

/-- What can become of `s₀` by work on trees of tasks made from the tree at `kernel`: the store, and
the trees that are in use. -/
inductive Shared (kernel : Nat) (s₀ : Store) : Store → List Nat → Prop where
  | start : Shared kernel s₀ s₀ []
  | create {s s' : Store} {users : List Nat} {root : Nat} : Shared kernel s₀ s users →
      (s.newUserTree kernel).value = (.ok root, s') → Shared kernel s₀ s' (root :: users)
  | refused {s s' : Store} {users : List Nat} {e : PagingError} : Shared kernel s₀ s users →
      (s.newUserTree kernel).value = (.error e, s') → Shared kernel s₀ s' users
  | change {s : Store} {users : List Nat} {root : Nat} (c : Change) : Shared kernel s₀ s users →
      root ∈ users → InUpperHalf c.address → Shared kernel s₀ (c.apply s root) users
  | drop {s : Store} {users : List Nat} {root : Nat} : Shared kernel s₀ s users → root ∈ users →
      Shared kernel s₀ (s.dropUserTree root) (users.erase root)

variable {kernel root r f g : Nat} {s₀ s s' : Store} {users rest : List Nat}
  {p : List (Fin 512)}

/-! ## New trees -/

theorem newUserTree_eq_ok (made : (s.newUserTree kernel).value = (.ok root, s')) :
    ∃ frames, (s.frames.allocate 1).value = .ok (root, frames) ∧
      s' = ⟨frames, shareLowerHalf (s.memory.clear root) kernel root⟩ := by
  rw [newUserTree, Logged.value_bind] at made
  rcases granted : (s.frames.allocate 1).value with err | ⟨f, frames⟩ <;> rw [granted] at made <;>
    cases made
  exact ⟨frames, rfl, rfl⟩

theorem newUserTree_eq_error {e : PagingError}
    (failed : (s.newUserTree kernel).value = (.error e, s')) : s' = s := by
  rw [newUserTree, Logged.value_bind] at failed
  rcases granted : (s.frames.allocate 1).value with err | ⟨f, frames⟩ <;> rw [granted] at failed <;>
    cases failed
  rfl

/-- From `s` to `s'` a tree was made at `root`, a copy of the lower half of the kernel's top table
in a frame that was free. -/
structure Founded (kernel root : Nat) (s s' : Store) : Prop where
  free : s.frames.isTaken root = false
  small : root < Word.max
  frames : s'.frames = s.frames.mark root 1
  beside : ∀ g, g ≠ root → ∀ j, s'.memory.entry g j = s.memory.entry g j
  lower : ∀ i : Fin 512, i.val < userFirst → s'.memory.entry root i = s.memory.entry kernel i
  upper : ∀ i : Fin 512, userFirst ≤ i.val → s'.memory.entry root i = .zero

theorem founded_newUserTree (held : s.frames.isTaken kernel = true) (bounded : s.Bounded)
    (made : (s.newUserTree kernel).value = (.ok root, s')) : Founded kernel root s s' := by
  obtain ⟨frames, granted, rfl⟩ := newUserTree_eq_ok made
  obtain ⟨-, fits, -, rfl⟩ := Frames.allocate_eq_ok.mp granted
  have free : s.frames.isTaken root = false := fits.free root (Nat.le_refl _) (Nat.lt_succ_self _)
  have other : root ≠ kernel := by
    rintro rfl
    rw [held] at free
    cases free
  have entry : ∀ g j, (shareLowerHalf (s.memory.clear root) kernel root).entry g j =
      if root = g ∧ j.val < userFirst then s.memory.entry kernel j
      else if root = g then .zero else s.memory.entry g j := by
    intro g j
    rw [entry_shareLowerHalf _ other, Memory.entry_clear, Memory.entry_clear, if_neg other]
  refine ⟨free, ?_, rfl, fun g apart j => ?_, fun i low => ?_, fun i high => ?_⟩
  · exact Nat.lt_of_lt_of_le (Frames.lt_capacity_of_free free) (Nat.le_trans bounded (by decide))
  · rw [entry, if_neg fun h => apart h.1.symm, if_neg fun same => apart same.symm]
  · rw [entry, if_pos ⟨rfl, low⟩]
  · rw [entry, if_neg fun h => Nat.not_lt_of_le high h.2, if_pos rfl]

namespace Founded
variable (founded : Founded kernel root s s')
include founded

theorem taken_iff (f : Nat) :
    s'.frames.isTaken f = true ↔ s.frames.isTaken f = true ∨ f = root := by
  rw [founded.frames]
  exact Frames.taken_after_one founded.small

theorem ne_root_of_taken (taken : s.frames.isTaken f = true) : f ≠ root := by
  rintro rfl
  rw [founded.free] at taken
  cases taken

/-- The tree has nothing to itself but its top table. -/
theorem eq_of_owns (owns : s'.Owns root f) : f = root := by
  rcases owns_iff.mp owns with same | ⟨i, p, high, leads⟩
  · exact same
  · rw [Memory.follow_of_zero (founded.upper i high)] at leads
    cases leads

theorem exchange : Exchange [] [root] s s' := by
  refine ⟨by rw [founded.frames]; exact Frames.capacity_mark .., fun g taken _ =>
    founded.beside g (founded.ne_root_of_taken taken), fun f => ?taken, ?fresh⟩
  case taken =>
    rw [founded.taken_iff]
    constructor
    · rintro (before | same)
      · exact .inl ⟨before, fun r none => by cases none⟩
      · exact .inr ⟨root, .head _, same ▸ owns_root s' f⟩
    · rintro (⟨before, -⟩ | ⟨r, here, owns⟩)
      · exact .inl before
      · rw [List.mem_singleton.mp here] at owns
        exact .inr (founded.eq_of_owns owns)
  case fresh =>
    refine List.forall_mem_singleton.mpr fun f owns => .inr ?_
    rw [founded.eq_of_owns owns]
    exact founded.free

variable (well : s₀.WellFormed 4 kernel) (iso : Isolated kernel s₀ s users)
include well iso

omit well in
theorem lower_eq {i : Fin 512} (low : i.val < userFirst) :
    s'.memory.entry root i = s₀.memory.entry kernel i :=
  (founded.lower i low).trans (iso.intact [] kernel Memory.follow_nil i)

theorem intact (leads : s₀.memory.follow 4 kernel p = some g) (i : Fin 512) :
    s'.memory.entry g i = s₀.memory.entry g i := by
  have taken := iso.taken_of_kernel well leads
  rw [founded.beside g (founded.ne_root_of_taken taken), iso.intact p g leads]

/-- The paths are the kernel's, the empty one apart. -/
theorem follow_cases (leads : s'.memory.follow 4 root p = some f) :
    p = [] ∧ f = root ∨ s₀.memory.follow 4 kernel p = some f := by
  rcases upper_or p with up | ⟨i, q, rfl, low⟩
  · obtain rfl := founded.eq_of_owns ⟨p, up, leads⟩
    rcases p with _ | ⟨i, q⟩
    · exact .inl ⟨rfl, rfl⟩
    · rw [Memory.follow_of_zero (founded.upper i (up i rfl))] at leads
      cases leads
  · rw [follow_lower (fun _ _ leads => founded.intact well iso leads)
      (founded.lower_eq iso low)] at leads
    exact .inr leads

theorem space : Space kernel s₀ s' root := by
  have cases := fun {p f} => founded.follow_cases well iso (p := p) (f := f)
  have other := fun {p f} (leads : s₀.memory.follow 4 kernel p = some f) =>
    founded.ne_root_of_taken (iso.taken_of_kernel well leads)
  refine ⟨⟨fun p q f hp hq => ?unique, fun p f leads => ?taken, fun p g leads short i absent =>
    ?absent⟩, fun i => founded.lower_eq iso, fun f owns => ?fresh,
    fun i p g high leads _ j => ?small⟩
  case unique =>
    rcases cases hp with ⟨rfl, same⟩ | before <;> rcases cases hq with ⟨rfl, same'⟩ | before'
    · rfl
    · exact absurd same (other before')
    · exact absurd same' (other before)
    · exact well.unique p q f before before'
  case taken =>
    refine (founded.taken_iff f).mpr ((cases leads).symm.imp ?_ And.right)
    exact iso.taken_of_kernel well
  case absent =>
    rcases cases leads with ⟨rfl, rfl⟩ | before
    · by_cases low : i.val < userFirst
      · rw [founded.lower_eq iso low] at absent ⊢
        exact well.clear absent
      · exact founded.upper i (Nat.le_of_not_lt low)
    · rw [founded.intact well iso before] at absent ⊢
      exact well.absent p g before short i absent
  case fresh =>
    rw [founded.eq_of_owns owns]
    exact iso.free_of_free founded.free
  case small =>
    rw [Memory.follow_of_zero (founded.upper i high)] at leads
    cases leads

end Founded

/-! ## Runs -/

/-- What one operation in the upper half does to its tree. -/
theorem exchange_change (well : s₀.WellFormed 4 kernel) (bounded : s₀.Bounded)
    (iso : Isolated kernel s₀ s users) (here : root ∈ users) (c : Change)
    (high : InUpperHalf c.address) :
    Exchange [root] [root] s (c.apply s root) ∧ Space kernel s₀ (c.apply s root) root := by
  have space := iso.spaces root here
  have small := iso.bounded bounded
  cases c with
  | map address pages =>
    have grown := grown_map space.wellFormed small address pages
    have spared := spared_map space.wellFormed small high pages
    exact ⟨exchange_grown well iso here grown spared, space_grown iso here grown spared⟩
  | fault code address window =>
    have grown := grown_handleFault space.wellFormed small code address window
    have spared := spared_handleFault space.wellFormed small code high window
    exact ⟨exchange_grown well iso here grown spared, space_grown iso here grown spared⟩
  | unmap address =>
    have emptied := emptied_unmapSlot space.wellFormed fun _ => space.plain high
    have up : ∀ i ∈ [(Linear.ofNat address).part 4], userFirst ≤ i.val :=
      List.forall_mem_singleton.mpr high
    exact ⟨exchange_emptied iso here emptied up, space_emptied iso here emptied up⟩

theorem isolated_shared (well : s₀.WellFormed 4 kernel) (bounded : s₀.Bounded)
    (run : Shared kernel s₀ s users) : Isolated kernel s₀ s users := by
  induction run with
  | start => exact isolated_start kernel s₀
  | create _ made iso =>
    have founded := founded_newUserTree (iso.taken_of_kernel well Memory.follow_nil)
      (iso.bounded bounded) made
    have all : Isolated kernel s₀ _ ([] ++ _) := iso
    exact isolated_exchange well all founded.exchange
      (List.forall_mem_singleton.mpr (founded.space well iso)) (List.pairwise_singleton _ _)
  | refused _ failed iso =>
    rw [newUserTree_eq_error failed]
    exact iso
  | @change s users root c _ here high iso =>
    obtain ⟨ex, space⟩ := exchange_change well bounded iso here c high
    have after := isolated_exchange well (iso.split here) ex
      (List.forall_mem_singleton.mpr space) (List.pairwise_singleton _ _)
    exact after.perm (List.perm_cons_erase here).symm
  | @drop s users root _ here iso =>
    refine isolated_exchange well (iso.split here) (exchange_drop iso here bounded) ?_ .nil
    exact fun r none => by cases none

/-- **Trees of tasks are isolated.** Let any number of trees be made from a well-formed kernel tree,
changed in their upper halves and taken down, whatever each of these comes to. What is done to one
tree, or to make a new one, changes no translation of the kernel's tree or of any other; every tree
translates the lower half as the kernel does; and when no tree is left, the frames that are taken
are those that were taken before the first. -/
theorem trees_isolated (kernel : Nat) (s₀ : Store) (well : s₀.WellFormed 4 kernel)
    (bounded : s₀.Bounded) (s : Store) (users : List Nat) (run : Shared kernel s₀ s users) :
    (∀ root ∈ users, ∀ r, r = kernel ∨ r ∈ users ∧ r ≠ root → ∀ b,
      (∀ c : Change, InUpperHalf c.address →
        (c.apply s root).memory.translate r b = s.memory.translate r b) ∧
      (s.dropUserTree root).memory.translate r b = s.memory.translate r b) ∧
    (∀ r, r = kernel ∨ r ∈ users → ∀ b,
      (s.newUserTree kernel).value.2.memory.translate r b = s.memory.translate r b) ∧
    (∀ r ∈ users, ∀ b, ¬ InUpperHalf b →
      s.memory.translate r b = s.memory.translate kernel b) ∧
    (users = [] → ∀ f, s.frames.isTaken f = s₀.frames.isTaken f) := by
  have iso := isolated_shared well bounded run
  refine ⟨fun root here r other b => ?changed, fun r other b => ?made, fun r here b low => ?lower,
    fun none f => ?reclaimed⟩
  case changed =>
    have beside : r = kernel ∨ r ∈ users.erase root :=
      other.imp_right fun h => (List.mem_erase_of_ne h.2).mpr h.1
    refine ⟨fun c high => ?_, ?_⟩
    · exact translate_beside well (iso.split here)
        (exchange_change well bounded iso here c high).1 beside b
    · exact translate_beside well (iso.split here) (exchange_drop iso here bounded) beside b
  case made =>
    rcases made : (s.newUserTree kernel).value with ⟨e | root, s'⟩
    · rw [newUserTree_eq_error made]
    · have founded := founded_newUserTree (iso.taken_of_kernel well Memory.follow_nil)
        (iso.bounded bounded) made
      have all : Isolated kernel s₀ s ([] ++ users) := iso
      exact translate_beside well all founded.exchange other b
  case lower =>
    have top := (iso.spaces r here).lower _ (Nat.lt_of_not_le low)
    rw [← iso.intact [] kernel Memory.follow_nil] at top
    exact Memory.walk_congr (Entry.alike_of_eq top) fun _ _ _ _ => Entry.alike_of_eq rfl
  case reclaimed =>
    subst none
    have same := iso.taken f
    simp only [List.not_mem_nil, false_and, exists_false, or_false] at same
    exact Bool.eq_iff_iff.mpr same

/-- Two trees are made from one with a page at its bottom. The one gets a page of its own, which the
other does not see, and both go. -/
theorem trees_isolated_two :
    let s₀ := (map ⟨(Frames.full 1).release 1 20, (Memory.filled (.ofNat 0x2003)).clear 0⟩ 0
      0x1000 1).value.2
    let s₁ := (s₀.newUserTree 0).value.2
    let s₂ := (s₁.newUserTree 0).value.2
    let s₃ := (Change.map 0xffff800000000000 1).apply s₂ 5
    let s₄ := (s₃.dropUserTree 5).dropUserTree 6
    s₀.WellFormed 4 0 ∧ s₀.Bounded ∧ Shared 0 s₀ s₂ [6, 5] ∧
      s₃.memory.translate 6 0xffff800000000abc = s₂.memory.translate 6 0xffff800000000abc ∧
      s₂.memory.translate 6 0x1abc = s₂.memory.translate 0 0x1abc ∧
      Shared 0 s₀ s₄ [] ∧ s₂.frames.isTaken 6 = true ∧ s₄.frames.isTaken 6 = false := by
  intro s₀ s₁ s₂ s₃ s₄
  have clear : ∀ i, ((Memory.filled (.ofNat 0x2003)).clear 0).entry 0 i = .zero := fun i =>
    (Memory.entry_clear _ _ _ _).trans (if_pos rfl)
  have bare : WellFormed ⟨(Frames.full 1).release 1 20, (Memory.filled (.ofNat 0x2003)).clear 0⟩
      4 0 := (Owned.start clear).wellFormed (by decide)
  have small : Bounded ⟨(Frames.full 1).release 1 20, (Memory.filled (.ofNat 0x2003)).clear 0⟩ := by
    unfold Bounded
    decide
  have grown := grown_map bare small 0x1000 1
  have first : (s₀.newUserTree 0).value.1 = .ok 5 := by
    simp only [s₀]
    rfl
  have second : (s₁.newUserTree 0).value.1 = .ok 6 := by
    simp only [s₁, s₀]
    rfl
  have held : s₂.frames.isTaken 6 = true := by
    simp only [s₂, s₁, s₀]
    rfl
  have start : s₀.frames.isTaken 6 = false := by
    simp only [s₀]
    rfl
  have well : s₀.WellFormed 4 0 := grown.wellFormed bare
  have bounded : s₀.Bounded := grown.bounded small
  have both : Shared 0 s₀ s₂ [6, 5] :=
    .create (.create .start (Prod.ext first rfl)) (Prod.ext second rfl)
  have mine : (5 : Nat) ∈ [6, 5] := .tail 6 (.head _)
  have gone : Shared 0 s₀ s₄ [] :=
    .drop (.drop (.change (.map 0xffff800000000000 1) both mine (by decide)) mine) (.head _)
  obtain ⟨changed, -, lower, -⟩ := trees_isolated 0 s₀ well bounded s₂ [6, 5] both
  obtain ⟨-, -, -, back⟩ := trees_isolated 0 s₀ well bounded s₄ [] gone
  refine ⟨well, bounded, both, ?_, lower 6 (.head _) 0x1abc (by decide), gone, held,
    (back rfl 6).trans start⟩
  exact (changed 5 mine 6 (.inr ⟨.head _, by decide⟩) _).1 (.map 0xffff800000000000 1) (by decide)

end Nucleus.Store
