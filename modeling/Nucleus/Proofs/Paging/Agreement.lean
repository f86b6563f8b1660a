import Nucleus.Proofs.Paging.LargePages

/-!
# Two stores side by side

Two memories may differ in many ways while one and the same tree in them looks alike. What is done
to both in the same way gives the same answers, and leaves them looking alike.

* `Memory.Agree`: all entries of a tree are in a relation to those of the other memory; it is
  enough that they tally.
* `InStep`: two stores move on, and whatever tallied in them tallies still.
* `matches_map`, `matches_handleFault`, `translate_eq`, `inStep_unmap`: each call is like that.
-/

namespace Nucleus
open Platform

/-- An entry once the frame `f` was put under it. -/
def Entry.planted (e : Entry) (f : Nat) : Entry :=
  { e.setPointer (f * frameBytes) with present := true }.opened

theorem Entry.frame_planted {f : Nat} (small : f < Entry.frameBound) (e : Entry) :
    ((e.planted f).frame : Nat) = f := Entry.frame_made small

namespace Memory
variable {R : Entry → Entry → Prop} {m m' n n' : Memory} {level table f : Nat}
  {i : Fin 512}

/-- From a table at `level` on, the entries of all tables are in the relation `R` to those of the
other memory. -/
def Agree (R : Entry → Entry → Prop) (m m' : Memory) : (level table : Nat) → Prop
  | 0, _ => True
  | level + 1, table => ∀ i, R (m.entry table i) (m'.entry table i) ∧
      ∀ f, m.link? (level + 1) table i = some f → Agree R m m' level f

theorem Agree.entry (agree : m.Agree R m' (level + 1) table) (i : Fin 512) :
    R (m.entry table i) (m'.entry table i) := (agree i).1

theorem Agree.below (agree : m.Agree R m' (level + 1) table)
    (linked : m.link? (level + 1) table i = some f) : m.Agree R m' level f := (agree i).2 f linked

theorem Agree.and {R₁ R₂ R : Entry → Entry → Prop} (both : ∀ e e', R₁ e e' → R₂ e e' → R e e') :
    ∀ {level table : Nat}, m.Agree R₁ m' level table → m.Agree R₂ m' level table →
      m.Agree R m' level table := by
  intro level
  induction level with
  | zero => exact fun _ _ => trivial
  | succ level ih =>
    intro table first second i
    exact ⟨both _ _ (first.entry i) (second.entry i),
      fun f linked => ih (first.below linked) (second.below linked)⟩

/-- What tallies in two memories tallies still once both are rewritten, if that is so for each entry
and each link is an old one or leads to tables that tally. -/
theorem agree_rewrite
    (entries : ∀ g j, (m.entry g j).Tallies (m'.entry g j) → (n.entry g j).Tallies (n'.entry g j))
    (links : ∀ l g j f, n.link? l g j = some f →
      m.link? l g j = some f ∨ ∀ k, n.Agree Entry.Tallies n' k f) :
    ∀ {level table : Nat}, m.Agree Entry.Tallies m' level table →
      n.Agree Entry.Tallies n' level table := by
  intro level
  induction level with
  | zero => exact fun _ => trivial
  | succ level ih =>
    intro table agree i
    refine ⟨entries table i (agree.entry i), fun f linked => ?_⟩
    cases links _ table i f linked with
    | inl old => exact ih (agree.below old)
    | inr new => exact new level

theorem Agree.of_follow {p : List (Fin 512)} {g : Nat} : ∀ {level table : Nat},
    m.Agree R m' level table → m.follow level table p = some g → p.length < level →
      ∀ i, R (m.entry g i) (m'.entry g i) := by
  induction p with
  | nil =>
    intro level table agree leads short i
    obtain ⟨level, rfl⟩ := Nat.exists_eq_succ_of_ne_zero (Nat.ne_of_gt short)
    obtain rfl := Option.some.inj (follow_nil.symm.trans leads)
    exact agree.entry i
  | cons j p ih =>
    intro level table agree leads short
    obtain ⟨level, rfl⟩ := Nat.exists_eq_succ_of_ne_zero (Nat.ne_of_gt (Nat.zero_lt_of_lt short))
    obtain ⟨f, linked, rest⟩ := follow_cons_eq_some.mp leads
    exact ih (agree.below linked) rest (Nat.lt_of_succ_lt_succ short)

theorem walk_eq_of_agree (agree : m.Agree Entry.Tallies m' (level + 1) table) (a : Linear) :
    m'.walk a (level + 1) table = m.walk a (level + 1) table :=
  walk_tallies (agree.entry _) fun _ _ leads short => agree.of_follow leads short

end Memory

namespace Store
variable {s s' t t' u u' : Store} {α : Type} {level table root f : Nat} {i : Fin 512}

/-- The same frames are free in two stores, and the trees below a table tally. -/
structure Synced (level table : Nat) (s s' : Store) : Prop where
  frames : s'.frames = s.frames
  bounded : s.Bounded
  agree : s.memory.Agree Entry.Tallies s'.memory level table

/-- From `s` and `s'`, two stores have moved on to `t` and `t'`: the same frames are free, and
whatever tallied tallies still. -/
structure InStep (s s' t t' : Store) : Prop where
  frames : t'.frames = t.frames
  capacity : t.frames.capacity = s.frames.capacity
  kept : ∀ level table, s.memory.Agree Entry.Tallies s'.memory level table →
    t.memory.Agree Entry.Tallies t'.memory level table

/-- Two answers are the same, and the stores that they come with have moved on in step. -/
structure Matches (s s' : Store) (r r' : α × Store) : Prop where
  answer : r'.1 = r.1
  moves : InStep s s' r.2 r'.2

namespace InStep

theorem refl (frames : s'.frames = s.frames) : InStep s s' s s' :=
  ⟨frames, rfl, fun _ _ agree => agree⟩

theorem trans (first : InStep s s' t t') (second : InStep t t' u u') : InStep s s' u u' :=
  ⟨second.frames, second.capacity.trans first.capacity,
    fun level table agree => second.kept level table (first.kept level table agree)⟩

theorem synced (moves : InStep s s' t t') (synced : Synced level table s s') :
    Synced level table t t' := by
  refine ⟨moves.frames, ?_, moves.kept _ _ synced.agree⟩
  unfold Bounded
  rw [moves.capacity]
  exact synced.bounded

end InStep

/-! ## Mapping -/

theorem inStep_open (frames : s'.frames = s.frames) (table : Nat) (i : Fin 512) :
    InStep s s' (s.openEntry table i) (s'.openEntry table i) := by
  refine ⟨frames, rfl, fun level g => Memory.agree_rewrite (fun g j tallies => ?_)
    fun l g j f linked => .inl ((s.link?_open table i l g j).symm.trans linked)⟩
  rw [entry_open, entry_open]
  split
  · exact ⟨tallies.present, tallies.huge, tallies.frame⟩
  · exact tallies

/-- The store once an absent entry of a table has got the frame `f`. -/
def plant (s : Store) (frames : Frames) (f table : Nat) (i : Fin 512) : Store :=
  openEntry ⟨frames, (s.memory.clear f).update table i fun e =>
    { e.setPointer (f * frameBytes) with present := true }⟩ table i

theorem entry_plant (s : Store) (frames : Frames) (f table : Nat) (i : Fin 512) (g : Nat)
    (j : Fin 512) :
    (s.plant frames f table i).memory.entry g j =
      if table = g ∧ i = j then (if f = g then Entry.zero else s.memory.entry g j).planted f
      else if f = g then .zero else s.memory.entry g j := by
  simp only [plant, entry_open, Memory.entry_update, Memory.entry_clear]
  split <;> rfl

/-- What a fresh frame comes to is the same in both stores. -/
theorem agree_fresh (small : f < Entry.frameBound) (frames : Frames) (table : Nat) (i : Fin 512)
    (k : Nat) : (s.plant frames f table i).memory.Agree Entry.Tallies
      (s'.plant frames f table i).memory k f := by
  induction k with
  | zero => trivial
  | succ k ih =>
    intro j
    have same : (s'.plant frames f table i).memory.entry f j =
        (s.plant frames f table i).memory.entry f j := by
      rw [entry_plant, entry_plant, if_pos rfl, if_pos rfl]
    refine ⟨same ▸ .refl _, fun g linked => ?_⟩
    -- the only entry that can be present names the frame itself
    obtain ⟨present, -, frame⟩ := Memory.link?_eq_some.mp linked
    rw [entry_plant, if_pos rfl] at present frame
    split at present
    · next here =>
      rw [if_pos here] at frame
      exact frame.symm.trans (Entry.frame_planted small _) ▸ ih
    · cases present

theorem inStep_plant (small : f < Entry.frameBound) {frames : Frames}
    (capacity : frames.capacity = s.frames.capacity) (table : Nat) (i : Fin 512) :
    InStep s s' (s.plant frames f table i) (s'.plant frames f table i) := by
  refine ⟨rfl, capacity, fun level g => Memory.agree_rewrite (fun g j tallies => ?entries)
    fun l g j h linked => ?links⟩
  case entries =>
    rw [entry_plant, entry_plant]
    split
    · by_cases fresh : f = g
      · rw [if_pos fresh, if_pos fresh]
        exact .refl _
      · rw [if_neg fresh, if_neg fresh]
        exact ⟨rfl, tallies.huge, fun _ => rfl⟩
    · split
      · exact .refl _
      · exact tallies
  case links =>
    obtain ⟨present, small', frame⟩ := Memory.link?_eq_some.mp linked
    rw [entry_plant] at present small' frame
    split at present
    · next here =>
      rw [if_pos here] at frame
      obtain rfl : f = h := (Entry.frame_planted small _).symm.trans frame
      exact .inr fun k => agree_fresh small frames table i k
    · next other =>
      rw [if_neg other] at small' frame
      split at present
      · cases present
      · next old =>
        rw [if_neg old] at small' frame
        exact .inl (Memory.link?_eq_some.mpr ⟨present, small', frame⟩)

theorem descend_refused {e : AllocError} {a : Linear}
    (absent : (s.memory.entry table (a.part level)).present = false)
    (refused : (s.frames.allocate 1).value = .error e) :
    (s.descend level table a).value = (.error (.alloc e), s) := by
  simp [descend, child, absent, refused]

theorem descend_planted {a : Linear} {frames : Frames}
    (absent : (s.memory.entry table (a.part level)).present = false)
    (granted : (s.frames.allocate 1).value = .ok (f, frames)) :
    (s.descend level table a).value = (.ok f, s.plant frames f table (a.part level)) := by
  simp [descend, child, absent, granted, plant]

/-- What it says that `f` is granted, and that the frames are `frames` then. -/
structure Granted (s : Store) (f : Nat) (frames : Frames) : Prop where
  free : s.frames.isTaken f = false
  small : f < Entry.frameBound
  capacity : frames.capacity = s.frames.capacity
  taken : ∀ g, frames.isTaken g = true ↔ s.frames.isTaken g = true ∨ g = f

theorem granted_of_allocate {frames : Frames} (bounded : s.Bounded)
    (granted : (s.frames.allocate 1).value = .ok (f, frames)) : Granted s f frames := by
  obtain ⟨-, fits, -, rfl⟩ := Frames.allocate_eq_ok.mp granted
  have free : s.frames.isTaken f = false := fits.free f (Nat.le_refl f) (Nat.lt_succ_self f)
  have small : f < Entry.frameBound := Nat.lt_of_lt_of_le (Frames.lt_capacity_of_free free) bounded
  exact ⟨free, small, Frames.capacity_mark _ _ _,
    fun g => Frames.taken_after_one (Nat.lt_of_lt_of_le small (by decide))⟩

namespace Granted
variable {frames : Frames} (granted : Granted s f frames) (taken : s.frames.isTaken table = true)
include granted taken

theorem ne : f ≠ table := by
  rintro rfl
  rw [granted.free] at taken
  cases taken

theorem entry (i : Fin 512) :
    (s.plant frames f table i).memory.entry table i = (s.memory.entry table i).planted f := by
  rw [entry_plant, if_pos ⟨rfl, rfl⟩, if_neg (granted.ne taken)]

theorem clear (i j : Fin 512) : (s.plant frames f table i).memory.entry f j = .zero := by
  rw [entry_plant, if_neg fun here => granted.ne taken here.1.symm, if_pos rfl]

end Granted

/-- Going through an entry answers the same, and what it leads to tallies. -/
theorem matches_descend (synced : Synced (level + 1) table s s') (a : Linear) :
    Matches s s' (s.descend (level + 1) table a).value (s'.descend (level + 1) table a).value ∧
      ∀ f, (s.descend (level + 1) table a).value.1 = .ok f →
        (s.descend (level + 1) table a).value.2.memory.Agree Entry.Tallies
          (s'.descend (level + 1) table a).value.2.memory level f := by
  have tallies := synced.agree.entry (a.part (level + 1))
  cases there : (s.memory.entry table (a.part (level + 1))).present with
  | true =>
    have there' := tallies.present.trans there
    by_cases small : level + 1 ≤ 1 ∨ (s.memory.entry table (a.part (level + 1))).huge = false
    · rw [descend_table there small, descend_table there' (tallies.huge.symm ▸ small),
        tallies.frame there]
      have moves := inStep_open synced.frames table (a.part (level + 1))
      refine ⟨⟨rfl, moves⟩, fun f named => ?_⟩
      cases named
      apply moves.kept
      cases level with
      | zero => trivial
      | succ level =>
        apply synced.agree.below (i := a.part (level + 2))
        have plain := small.resolve_left (by omega)
        exact Memory.link?_eq_some.mpr ⟨there, by simp [Entry.large, plain], rfl⟩
    · obtain ⟨inner, huge⟩ := not_or.mp small
      rw [Bool.not_eq_false] at huge
      rw [descend_large there huge (Nat.lt_of_not_le inner),
        descend_large there' (tallies.huge.trans huge) (Nat.lt_of_not_le inner)]
      exact ⟨⟨rfl, .refl synced.frames⟩, fun f named => by cases named⟩
  | false =>
    have there' := tallies.present.trans there
    cases granted : (s.frames.allocate 1).value with
    | error e =>
      rw [descend_refused there granted, descend_refused there' (synced.frames ▸ granted)]
      exact ⟨⟨rfl, .refl synced.frames⟩, fun f named => by cases named⟩
    | ok r =>
      obtain ⟨f, frames⟩ := r
      obtain ⟨-, small, capacity, -⟩ := granted_of_allocate synced.bounded granted
      rw [descend_planted there granted, descend_planted there' (synced.frames ▸ granted)]
      refine ⟨⟨rfl, inStep_plant small capacity _ _⟩, fun g named => ?_⟩
      cases named
      exact agree_fresh small frames _ _ level

theorem matches_fillSlots {below : Fill} (spec : ∀ s s' f a n, Synced level f s s' →
      Matches s s' (below s f a n).value (below s' f a n).value) (slots : Nat) :
    ∀ (s s' : Store) (a : Linear) (n : Nat), Synced (level + 1) table s s' →
      Matches s s' (fillSlots below (level + 1) table slots s a n).value
        (fillSlots below (level + 1) table slots s' a n).value := by
  induction slots with
  | zero =>
    intro s s' a n synced
    cases n <;> exact ⟨rfl, .refl synced.frames⟩
  | succ slots ih =>
    intro s s' a n synced
    cases n with
    | zero => exact ⟨rfl, .refl synced.frames⟩
    | succ n =>
      obtain ⟨⟨answer, moves⟩, child⟩ := matches_descend synced a
      rw [fillSlots, fillSlots, Logged.value_bind, Logged.value_bind]
      generalize (s.descend (level + 1) table a).value = r at answer moves child
      generalize (s'.descend (level + 1) table a).value = r' at answer moves child
      obtain ⟨answer₁, t⟩ := r
      obtain ⟨answer₁', t'⟩ := r'
      cases answer
      cases answer₁ with
      | error e => exact ⟨rfl, moves⟩
      | ok f =>
        have synced₁ := moves.synced synced
        obtain ⟨answer, moves₁⟩ :=
          spec t t' f a (n + 1) ⟨synced₁.frames, synced₁.bounded, child f rfl⟩
        simp only [Logged.value_bind]
        generalize (below t f a (n + 1)).value = r at answer moves₁
        generalize (below t' f a (n + 1)).value = r' at answer moves₁
        obtain ⟨answer₂, u⟩ := r
        obtain ⟨answer₂', u'⟩ := r'
        cases answer
        cases answer₂ with
        | error e => exact ⟨rfl, moves.trans moves₁⟩
        | ok left =>
          obtain ⟨answer, moves₂⟩ :=
            ih u u' (a.advance (level + 1)) left (moves₁.synced synced₁)
          exact ⟨answer, (moves.trans moves₁).trans moves₂⟩

theorem matches_fill (level : Nat) : ∀ (s s' : Store) (table : Nat) (a : Linear) (n : Nat),
    Synced level table s s' → Matches s s' (fill level s table a n).value
      (fill level s' table a n).value := by
  induction level with
  | zero => exact fun s s' _ _ _ synced => ⟨rfl, .refl synced.frames⟩
  | succ level ih =>
    intro s s' table a n synced
    exact matches_fillSlots (fun s s' f a n => ih s s' f a n) _ s s' a n synced

theorem matches_map (synced : Synced 4 root s s') (address pages : Nat) :
    Matches s s' (s.map root address pages).value (s'.map root address pages).value := by
  obtain ⟨answer, moves⟩ := matches_fill 4 s s' root (.ofNat address) pages synced
  rw [value_map, value_map]
  exact ⟨congrArg (outcome address) answer, moves⟩

theorem matches_handleFault (synced : Synced 4 root s s') (code : FaultCode) (address : Nat)
    (window : Span) :
    Matches s s' (s.handleFault root code address window).value
      (s'.handleFault root code address window).value := by
  rw [handleFault, handleFault]
  split
  · exact ⟨rfl, .refl synced.frames⟩
  · exact matches_map synced address 1

theorem translate_eq (synced : Synced 4 root s s') (address : Nat) :
    s'.memory.translate root address = s.memory.translate root address :=
  Memory.walk_eq_of_agree synced.agree _

/-! ## Unmapping -/

/-- The same entries were cleared in two stores, and the same frames are free. -/
structure Cleared (s s' t t' : Store) : Prop where
  frames : t'.frames = t.frames
  capacity : t.frames.capacity = s.frames.capacity
  entry : ∀ g j, t.memory.entry g j = s.memory.entry g j ∧
      t'.memory.entry g j = s'.memory.entry g j ∨
    t.memory.entry g j = .zero ∧ t'.memory.entry g j = .zero

namespace Cleared

theorem refl (frames : s'.frames = s.frames) : Cleared s s' s s' :=
  ⟨frames, rfl, fun _ _ => .inl ⟨rfl, rfl⟩⟩

theorem trans (first : Cleared s s' t t') (second : Cleared t t' u u') : Cleared s s' u u' := by
  refine ⟨second.frames, second.capacity.trans first.capacity, fun g j => ?_⟩
  cases second.entry g j with
  | inr zero => exact .inr zero
  | inl same =>
    rw [same.1, same.2]
    exact first.entry g j

theorem inStep (cleared : Cleared s s' t t') : InStep s s' t t' := by
  refine ⟨cleared.frames, cleared.capacity, fun level table =>
    Memory.agree_rewrite (fun g j tallies => ?entries) fun l g j f linked => ?links⟩
  case entries =>
    cases cleared.entry g j with
    | inl same =>
      rw [same.1, same.2]
      exact tallies
    | inr zero =>
      rw [zero.1, zero.2]
      exact .refl _
  case links =>
    cases cleared.entry g j with
    | inl same =>
      rw [Memory.link?_congr same.1] at linked
      exact .inl linked
    | inr zero =>
      rw [Memory.link?_of_absent (congrArg Entry.present zero.1)] at linked
      cases linked

end Cleared

theorem cleared_put (frames : s'.frames = s.frames) (table : Nat) (i : Fin 512) :
    Cleared s s' { s with memory := s.memory.put table i .zero }
      { s' with memory := s'.memory.put table i .zero } := by
  refine ⟨frames, rfl, fun g j => ?_⟩
  rw [Memory.entry_put, Memory.entry_put]
  split
  · exact .inr ⟨rfl, rfl⟩
  · exact .inl ⟨rfl, rfl⟩

theorem cleared_release (frames : s'.frames = s.frames) {f f' : Nat} (same : f' = f) :
    Cleared s s' { s with frames := s.frames.release f 1 }
      { s' with frames := s'.frames.release f' 1 } := by
  subst same
  exact ⟨by rw [frames], Frames.capacity_release _ _ _, fun _ _ => .inl ⟨rfl, rfl⟩⟩

theorem cleared_drop {below : Store → Nat → Store} (spec : ∀ s s' f, s'.frames = s.frames →
      s.memory.Agree Entry.Tallies s'.memory level f → Cleared s s' (below s f) (below s' f))
    (frames : s'.frames = s.frames)
    (agree : s.memory.Agree Entry.Tallies s'.memory (level + 1) table) (i : Fin 512) :
    Cleared s s' (drop below s table i) (drop below s' table i) := by
  have tallies := agree.entry i
  cases there : (s.memory.entry table i).present with
  | false =>
    have there' := tallies.present.trans there
    simp only [drop, there, there', Bool.not_false, if_true]
    exact .refl frames
  | true =>
    have there' := tallies.present.trans there
    have frame := tallies.frame there
    cases huge : (s.memory.entry table i).huge with
    | true =>
      have huge' := tallies.huge.trans huge
      simp only [drop, there, there', huge, huge', Bool.not_true, Bool.false_eq_true, if_false,
        if_true]
      exact cleared_put frames table i
    | false =>
      have huge' := tallies.huge.trans huge
      have linked : s.memory.link? (level + 1) table i =
          some ((s.memory.entry table i).frame : Nat) :=
        Memory.link?_eq_some.mpr ⟨there, by simp [Entry.large, huge], rfl⟩
      have emptied := spec s s' _ frames (agree.below linked)
      simp only [drop, there, there', huge, huge', frame, Bool.not_true, Bool.false_eq_true,
        if_false]
      generalize below s _ = t at emptied
      generalize below s' _ = t' at emptied
      -- the entry that is read again is the one from before, unless it was cleared in both
      have again : ((t'.memory.entry table i).frame : Nat) = (t.memory.entry table i).frame := by
        cases emptied.entry table i with
        | inl same => rw [same.1, same.2, frame]
        | inr zero => rw [zero.1, zero.2]
      have released := cleared_release emptied.frames again
      exact (emptied.trans released).trans (cleared_put released.frames table i)

theorem cleared_drain (level : Nat) : ∀ (s s' : Store) (table : Nat), s'.frames = s.frames →
    s.memory.Agree Entry.Tallies s'.memory level table →
      Cleared s s' (drain level s table) (drain level s' table) := by
  induction level with
  | zero => exact fun s s' _ frames _ => .refl frames
  | succ level ih =>
    intro s s' table
    rw [drain, drain]
    generalize List.finRange 512 = slots
    induction slots generalizing s s' with
    | nil => exact fun frames _ => .refl frames
    | cons i slots rest =>
      intro frames agree
      have first := cleared_drop ih frames agree i
      exact first.trans (rest _ _ first.frames (first.inStep.kept _ _ agree))

theorem inStep_unmap (synced : Synced 4 root s s') (address : Nat) :
    InStep s s' (s.unmap root address) (s'.unmap root address) := by
  apply Cleared.inStep
  let i := (Linear.ofNat address).part 4
  have tallies := synced.agree.entry i
  cases there : (s.memory.entry root i).present with
  | false =>
    have there' := tallies.present.trans there
    simp only [unmap, unmapSlot, i] at there there' ⊢
    simp only [there, there', Bool.not_false, if_true]
    exact .refl synced.frames
  | true =>
    have there' := tallies.present.trans there
    have frame := tallies.frame there
    have linked : s.memory.link? 4 root i = some ((s.memory.entry root i).frame : Nat) :=
      Memory.link?_eq_some.mpr ⟨there, by simp [Entry.large], rfl⟩
    have first := cleared_put synced.frames root i
    have emptied := cleared_drain 3 _ _ _ first.frames
      (first.inStep.kept _ _ (synced.agree.below linked))
    have released := cleared_release emptied.frames (f := (s.memory.entry root i).frame) rfl
    simp only [unmap, unmapSlot, i] at there there' frame emptied released ⊢
    simp only [there, there', frame, Bool.not_true, Bool.false_eq_true, if_false]
    exact (first.trans emptied).trans released

end Store

end Nucleus
