import Nucleus.Paging.PageFault
import Nucleus.Proofs.Frame.Serving
import Nucleus.Proofs.Paging.Growth
import Nucleus.Proofs.Paging.Identity

/-!
# Mapping

Mapping lets a tree grow. Whatever part of a run has been mapped when it ends, and for whatever
reason it ends, what was done to the tree until then is a growth.

* `grown_open`: opening an entry that is present adds nothing.
* `Made.grown`: an entry that is made adds one frame.
* `grown_descend`: going through an entry does the one or the other, or nothing.
* `grown_fill`, `grown_map`, `grown_handleFault`: so mapping is a growth, however it ends.
-/

namespace Nucleus
open Platform

theorem Entry.frame_made {f : Nat} (small : f < Entry.frameBound) :
    ((Entry.made f).frame : Nat) = f := by
  have named : ((Entry.made f).frame : Nat) = f * frameBytes / frameBytes % Entry.frameBound := rfl
  rw [named, Nat.mul_div_cancel _ (by decide), Nat.mod_eq_of_lt small]

namespace Store
variable {s s' : Store} {level table : Nat} {i : Fin 512}

/-! ## One entry -/

theorem entry_open (s : Store) (table : Nat) (i : Fin 512) (g : Nat) (j : Fin 512) :
    (s.openEntry table i).memory.entry g j =
      if table = g ∧ i = j then (s.memory.entry g j).opened else s.memory.entry g j :=
  Memory.entry_update _ _ _ _ _ _

theorem link?_open (s : Store) (table : Nat) (i : Fin 512) (l g : Nat) (j : Fin 512) :
    (s.openEntry table i).memory.link? l g j = s.memory.link? l g j := by
  unfold Memory.link?
  rw [entry_open]
  split <;> rfl

/-- Opening an entry that is present changes no path. -/
theorem grown_open (well : s.WellFormed (level + 1) table)
    (present : (s.memory.entry table i).present = true) :
    Grown (level + 1) table s (s.openEntry table i) := by
  have entry := s.entry_open table i
  have same : ∀ p, (s.openEntry table i).memory.follow (level + 1) table p =
      s.memory.follow (level + 1) table p :=
    Memory.follow_congr fun p g _ _ l j => s.link?_open table i l g j
  have grows : ∀ g j,
      Entry.Grows (s.memory.entry g j) ((s.openEntry table i).memory.entry g j) := by
    intro g j
    rw [entry]
    split
    · next here =>
      rw [← here.1, ← here.2]
      exact .opened present
    · exact .same _
  refine ⟨rfl, fun p f leads => (same p).trans leads, fun p f leads => .inl ((same p).symm.trans
    leads), fun p q f hp hq => ?unique, fun f => ?taken, fun g j => ?touched,
    fun p g _ _ j => grows g j, fun p g leads free => ?new⟩
  case unique =>
    rw [same] at hp hq
    exact well.unique p q f hp hq
  case taken =>
    refine ⟨.inl, fun h => h.elim id fun ⟨p, leads⟩ => ?_⟩
    exact well.taken p f ((same p).symm.trans leads)
  case touched =>
    rw [entry]
    split
    · next here =>
      exact .inr (.inl ⟨[], Nat.succ_pos level, here.1 ▸ Memory.follow_nil⟩)
    · exact .inl rfl
  case new =>
    rw [same] at leads
    exact absurd free (well.not_free leads)

/-- In `s'` entry `i` of the table leads to frame `f`, which was free and has been cleared. -/
structure Made (table f : Nat) (i : Fin 512) (s s' : Store) : Prop where
  free : s.frames.isTaken f = false
  small : f < Entry.frameBound
  frames : s'.frames = s.frames.mark f 1
  entry : ∀ g j, s'.memory.entry g j = if table = g ∧ i = j then (Entry.made f).opened
    else if f = g then .zero else s.memory.entry g j

namespace Made
variable {f : Nat} (made : Made table f i s s')
include made

theorem taken_iff (g : Nat) :
    s'.frames.isTaken g = true ↔ s.frames.isTaken g = true ∨ g = f := by
  rw [made.frames]
  exact Frames.taken_after_one (Nat.lt_of_lt_of_le made.small (by decide))

theorem link : s'.memory.link? (level + 1) table i = some f := by
  rw [Memory.link?_eq_some, made.entry, if_pos ⟨rfl, rfl⟩]
  exact ⟨rfl, rfl, Entry.frame_made made.small⟩

variable (well : s.WellFormed (level + 1) table)
include well

theorem ne_of_follow {p : List (Fin 512)} {g : Nat}
    (leads : s.memory.follow (level + 1) table p = some g) : f ≠ g := by
  rintro rfl
  exact well.not_free leads made.free

theorem root_ne : f ≠ table := made.ne_of_follow well (p := []) Memory.follow_nil

theorem clear (g : Nat) (j : Fin 512) (here : f = g) : s'.memory.entry g j = .zero := by
  have root := made.root_ne well
  rw [made.entry, if_neg fun h => root (here.trans h.1.symm), if_pos here]

/-- Below another entry nothing has changed. -/
theorem follow_beside {j : Fin 512} (other : j ≠ i) (p : List (Fin 512)) :
    s'.memory.follow (level + 1) table (j :: p) = s.memory.follow (level + 1) table (j :: p) := by
  refine Memory.follow_slot ?top (fun q g inside k => ?below) p
  case top => rw [made.entry, if_neg fun h => other h.2.symm, if_neg (made.root_ne well)]
  case below =>
    have inner : table ≠ g := by
      rintro rfl
      exact well.not_follow_root inside
    rw [made.entry, if_neg fun h => inner h.1, if_neg (made.ne_of_follow well inside)]

variable (absent : (s.memory.entry table i).present = false)
include absent

/-- One path is new, the one that ends with the entry. -/
theorem follow_eq (p : List (Fin 512)) : s'.memory.follow (level + 1) table p =
    if p = [i] then some f else s.memory.follow (level + 1) table p := by
  cases p with
  | nil => rw [Memory.follow_nil, Memory.follow_nil, if_neg (List.cons_ne_nil i []).symm]
  | cons j p =>
    by_cases here : j = i
    · subst here
      rw [Memory.follow_link made.link, Memory.follow_of_absent absent]
      cases p with
      | nil => rw [Memory.follow_nil, if_pos rfl]
      | cons k p =>
        rw [Memory.follow_of_zero (made.clear well f k rfl),
          if_neg fun h => List.cons_ne_nil k p (List.cons.inj h).2]
    · rw [made.follow_beside well here, if_neg fun h => here (List.cons.inj h).1]

theorem follow_eq_some {p : List (Fin 512)} {g : Nat} :
    s'.memory.follow (level + 1) table p = some g ↔
      p = [i] ∧ f = g ∨ s.memory.follow (level + 1) table p = some g := by
  rw [made.follow_eq well absent]
  split
  · next here =>
    have before : s.memory.follow (level + 1) table p = none := by
      rw [here]
      exact Memory.follow_of_absent absent
    rw [before]
    simp [here]
  · next other => simp [other]

theorem grown : Grown (level + 1) table s s' := by
  have follow := fun {p g} => made.follow_eq_some well absent (p := p) (g := g)
  have clear := well.clear absent
  refine ⟨?capacity, fun p g leads => follow.mpr (.inr leads), fun p g leads => ?fresh,
    fun p q g hp hq => ?unique, fun g => ?taken, fun g j => ?touched,
    fun p g leads short j => ?old, fun p g leads free j => ?new⟩
  case capacity =>
    rw [made.frames]
    exact Frames.capacity_mark _ _ _
  case fresh =>
    rcases follow.mp leads with ⟨-, rfl⟩ | before
    · exact .inr made.free
    · exact .inl before
  case unique =>
    rcases follow.mp hp with ⟨rfl, rfl⟩ | before <;> rcases follow.mp hq with ⟨rfl, same⟩ | before'
    · rfl
    · exact absurd rfl (made.ne_of_follow well before')
    · exact absurd same (made.ne_of_follow well before)
    · exact well.unique p q g before before'
  case taken =>
    rw [made.taken_iff]
    constructor
    · rintro (taken | rfl)
      · exact .inl taken
      · exact .inr ⟨[i], follow.mpr (.inl ⟨rfl, rfl⟩)⟩
    · rintro (taken | ⟨p, leads⟩)
      · exact .inl taken
      · rcases follow.mp leads with ⟨-, rfl⟩ | before
        · exact .inr rfl
        · exact .inl (well.taken p g before)
  case touched =>
    rw [made.entry]
    split
    · next here => exact .inr (.inl ⟨[], Nat.succ_pos level, here.1 ▸ Memory.follow_nil⟩)
    · split
      · next same =>
        subst same
        exact .inr (.inr ⟨made.free, (made.taken_iff f).mpr (.inr rfl)⟩)
      · exact .inl rfl
  case old =>
    rw [made.entry, if_neg (made.ne_of_follow well leads)]
    split
    · next here =>
      rw [← here.1, ← here.2, clear]
      exact .made f
    · exact .same _
  case new =>
    rcases follow.mp leads with ⟨rfl, same⟩ | before
    · rw [made.clear well g j same]
      exact ⟨.same _, fun _ => rfl⟩
    · exact absurd free (well.not_free before)

end Made

/-! ## Mapping -/

theorem descend_cases {P : Except PagingError Nat × Store → Prop} (s : Store)
    (level table : Nat) (a : Linear)
    (huge : P (.error (.hugePage a.canonical.toNat), s))
    (present : (s.memory.entry table (a.part level)).present = true →
      (s.memory.entry table (a.part level)).large level = false →
      P (.ok (s.memory.entry table (a.part level)).frame, s.openEntry table (a.part level)))
    (refused : ∀ err, P (.error (.alloc err), s))
    (made : (s.memory.entry table (a.part level)).present = false → ∀ f frames,
      (s.frames.allocate 1).value = .ok (f, frames) →
      P (.ok f, (⟨frames, (s.memory.clear f).update table (a.part level) fun e =>
        { e.setPointer (f * frameBytes) with present := true }⟩ : Store).openEntry table
          (a.part level))) : P (s.descend level table a).value := by
  simp only [descend]
  split
  · exact huge
  · next notHuge =>
    cases here : (s.memory.entry table (a.part level)).present with
    | true =>
      have small : (s.memory.entry table (a.part level)).large level = false := by
        rw [here] at notHuge
        simp only [Entry.large]
        revert notHuge
        cases (s.memory.entry table (a.part level)).huge <;> simp
        omega
      have kept : (s.child table (a.part level)).value =
          (.ok (s.memory.entry table (a.part level)).frame, s) := by
        simp [child, here]
      simp only [Logged.value_bind, kept, Logged.value_pure]
      exact present here small
    | false =>
      cases granted : (s.frames.allocate 1).value with
      | error err =>
        have kept : (s.child table (a.part level)).value = (.error err, s) := by
          simp [child, here, granted]
        simp only [Logged.value_bind, kept, Logged.value_pure]
        exact refused err
      | ok r =>
        obtain ⟨f, frames⟩ := r
        have grew : (s.child table (a.part level)).value = (.ok f,
            ⟨frames, (s.memory.clear f).update table (a.part level) fun e =>
              { e.setPointer (f * frameBytes) with present := true }⟩) := by
          simp [child, here, granted]
        simp only [Logged.value_bind, grew, Logged.value_pure]
        exact made here f frames granted

/-- The allocator has no frame that an entry could not name. -/
def Bounded (s : Store) : Prop := s.frames.capacity ≤ Entry.frameBound

theorem Grown.bounded (grown : Grown level table s s') (bounded : s.Bounded) : s'.Bounded := by
  unfold Bounded
  rw [grown.capacity]
  exact bounded

/-- An entry that is made is written over one that was clear, in a table that is not the new
frame. -/
theorem made_of_allocate {f : Nat} {frames : Frames} (well : s.WellFormed (level + 1) table)
    (bounded : s.Bounded) (absent : (s.memory.entry table i).present = false)
    (granted : (s.frames.allocate 1).value = .ok (f, frames)) :
    Made table f i s (openEntry ⟨frames, (s.memory.clear f).update table i fun e =>
      { e.setPointer (f * frameBytes) with present := true }⟩ table i) := by
  obtain ⟨-, fits, -, rfl⟩ := Frames.allocate_eq_ok.mp granted
  have free : s.frames.isTaken f = false := fits.free f (Nat.le_refl f) (Nat.lt_succ_self f)
  have small : f < Entry.frameBound := Nat.lt_of_lt_of_le (Frames.lt_capacity_of_free free) bounded
  have clear := well.clear absent
  have root : f ≠ table := by
    rintro rfl
    exact well.not_free Memory.follow_nil free
  refine ⟨free, small, rfl, fun g j => ?_⟩
  simp only [openEntry, Memory.entry_update, Memory.entry_clear]
  split
  · next here =>
    rw [← here.1, ← here.2, if_neg root, clear]
    rfl
  · rfl

/-- Going through an entry lets the tree grow by one frame at the most. -/
theorem grown_descend (well : s.WellFormed (level + 1) table) (bounded : s.Bounded) (a : Linear) :
    Grown (level + 1) table s (s.descend (level + 1) table a).value.2 ∧
      ∀ f, (s.descend (level + 1) table a).value.1 = .ok f →
        (s.descend (level + 1) table a).value.2.memory.link? (level + 1) table
          (a.part (level + 1)) = some f := by
  apply descend_cases (P := fun r => Grown (level + 1) table s r.2 ∧
    ∀ f, r.1 = .ok f → r.2.memory.link? (level + 1) table (a.part (level + 1)) = some f)
  case huge => exact ⟨.refl well, fun f none => by cases none⟩
  case refused => exact fun err => ⟨.refl well, fun f none => by cases none⟩
  case present =>
    intro present small
    refine ⟨grown_open well present, fun f here => ?_⟩
    cases here
    rw [link?_open, Memory.link?_eq_some]
    exact ⟨present, small, rfl⟩
  case made =>
    intro absent f frames granted
    have made := made_of_allocate well bounded absent granted
    refine ⟨made.grown well absent, fun g here => ?_⟩
    cases here
    exact made.link

section
variable {below : Fill}

theorem grown_fillSlots (spec : ∀ s f a n, s.WellFormed level f → s.Bounded →
      Grown level f s (below s f a n).value.2) (slots : Nat) :
    ∀ (s : Store) (a : Linear) (n : Nat), s.WellFormed (level + 1) table → s.Bounded →
      Grown (level + 1) table s (fillSlots below (level + 1) table slots s a n).value.2 := by
  induction slots with
  | zero =>
    intro s a n well _
    cases n <;> exact .refl well
  | succ slots ih =>
    intro s a n well bounded
    cases n with
    | zero => exact .refl well
    | succ n =>
      obtain ⟨first, linked⟩ := grown_descend well bounded a
      rw [fillSlots, Logged.value_bind]
      rcases went : (s.descend (level + 1) table a).value with ⟨err | f, s₁⟩
      · rw [went] at first
        exact first
      · -- from here on a failure leaves all that was done until then
        rw [went] at first linked
        have well₁ := first.wellFormed well
        have inner := spec s₁ f a (n + 1) (well₁.below (linked f rfl)) (first.bounded bounded)
        have second := first.trans (grown_below well₁ (linked f rfl) inner)
        simp only [Logged.value_bind]
        rcases filled : (below s₁ f a (n + 1)).value with ⟨err | left, s₂⟩
        · rw [filled] at second
          exact second
        · rw [filled] at second
          refine second.trans (ih s₂ _ left (second.wellFormed well) (second.bounded bounded))

end

/-- Mapping a run below a table lets the tree below it grow, whatever comes of the run. -/
theorem grown_fill : ∀ (level : Nat) (s : Store) (table : Nat) (a : Linear) (n : Nat),
    s.WellFormed level table → s.Bounded →
      Grown level table s (fill level s table a n).value.2 := by
  intro level
  induction level with
  | zero => exact fun s table a n well _ => .refl well
  | succ level ih =>
    intro s table a n well bounded
    exact grown_fillSlots ih _ s a n well bounded

/-- The answer for a run, by how many of its pages are left when the tree has no room for more. -/
def outcome (address : Nat) : Except PagingError Nat → Except PagingError Unit
  | .error e => .error e
  | .ok 0 => .ok ()
  | .ok (_ + 1) => .error (.outOfRange address)

theorem value_map (s : Store) (root address pages : Nat) :
    (s.map root address pages).value =
      (outcome address (fill 4 s root (.ofNat address) pages).value.1,
        (fill 4 s root (.ofNat address) pages).value.2) := by
  rw [map, Logged.value_bind]
  rcases (fill 4 s root (.ofNat address) pages).value with ⟨_ | _ | _, _⟩ <;> rfl

theorem grown_map (well : s.WellFormed 4 table) (bounded : s.Bounded) (address n : Nat) :
    Grown 4 table s (s.map table address n).value.2 := by
  rw [value_map]
  exact grown_fill 4 s table (.ofNat address) n well bounded

theorem grown_handleFault (well : s.WellFormed 4 table) (bounded : s.Bounded) (code : FaultCode)
    (address : Nat) (window : Span) :
    Grown 4 table s (s.handleFault table code address window).value.2 := by
  rw [handleFault]
  split
  · exact .refl well
  · exact grown_map well bounded address 1

end Store

end Nucleus
