import Nucleus.Proofs.Paging.Mapping
import Nucleus.Proofs.Paging.Translation

/-!
# Large pages

Mapping takes no large page away, and none of the tables that lead to it. It gets no further than
the large page itself, so nothing below it is ever written.

* `Stays`: what is taken stays taken, and its present entries name what they named.
* `stays_map`, `stays_handleFault`: mapping is like that, in whatever tree and however it ends.
* `Leads.later`, `Leads.walk_eq`: so what leads to a large page leads there for ever.
* `map_of_large`: a run that starts in a large page is refused.
* `identity_map_stays`: the identity map is never disturbed.
-/

namespace Nucleus
open Platform

theorem Entry.Alike.trans {e e' e'' : Entry} (first : e.Alike e') (second : e'.Alike e'') :
    e.Alike e'' :=
  ⟨second.1.trans first.1, second.2.1.trans first.2.1, second.2.2.trans first.2.2⟩

theorem Entry.alike_opened (e : Entry) : e.Alike e.opened := ⟨rfl, rfl, rfl⟩

namespace Store
variable {s s' s'' : Store} {a : Linear} {l level table g : Nat}

/-! ## What is taken -/

/-- From `s` to `s'` no frame was given back, and the entries that were present in taken frames
name what they named. -/
structure Stays (s s' : Store) : Prop where
  capacity : s'.frames.capacity = s.frames.capacity
  taken : ∀ f, s.frames.isTaken f = true → s'.frames.isTaken f = true
  entry : ∀ f i, s.frames.isTaken f = true → (s.memory.entry f i).present = true →
    (s.memory.entry f i).Alike (s'.memory.entry f i)

theorem Stays.refl (s : Store) : Stays s s :=
  ⟨rfl, fun _ taken => taken, fun _ _ _ _ => ⟨rfl, rfl, rfl⟩⟩

theorem Stays.bounded (stays : Stays s s') (bounded : s.Bounded) : s'.Bounded := by
  unfold Bounded
  rw [stays.capacity]
  exact bounded

theorem Stays.trans (first : Stays s s') (second : Stays s' s'') : Stays s s'' where
  capacity := second.capacity.trans first.capacity
  taken f taken := second.taken f (first.taken f taken)
  entry f i taken present := by
    have alike := first.entry f i taken present
    exact alike.trans (second.entry f i (first.taken f taken) (alike.1.trans present))

theorem alike_open (s : Store) (table : Nat) (i : Fin 512) (f : Nat) (j : Fin 512) :
    (s.memory.entry f j).Alike ((s.openEntry table i).memory.entry f j) := by
  rw [entry_open]
  split
  · exact Entry.alike_opened _
  · exact ⟨rfl, rfl, rfl⟩

theorem entry_open_absent {i j : Fin 512} (present : (s.memory.entry table i).present = true)
    (absent : (s.memory.entry g j).present = false) :
    (s.openEntry table i).memory.entry g j = s.memory.entry g j := by
  rw [entry_open, if_neg]
  rintro ⟨rfl, rfl⟩
  rw [present] at absent
  cases absent

theorem stays_open (s : Store) (table : Nat) (i : Fin 512) : Stays s (s.openEntry table i) where
  capacity := rfl
  taken _ taken := taken
  entry f j _ _ := s.alike_open table i f j

/-- A frame for a new entry was free, and the entry was not there. -/
theorem stays_descend (s : Store) (level table : Nat) (a : Linear) :
    Stays s (s.descend level table a).value.2 := by
  apply descend_cases (P := fun r => Stays s r.2)
  case huge => exact .refl s
  case refused => exact fun _ => .refl s
  case present => exact fun _ _ => stays_open s table _
  case made =>
    intro absent f frames granted
    obtain ⟨-, fits, -, rfl⟩ := Frames.allocate_eq_ok.mp granted
    have free : s.frames.isTaken f = false := fits.free f (Nat.le_refl f) (Nat.lt_succ_self f)
    apply Stays.trans ?_ (stays_open _ table _)
    constructor
    case capacity => exact Frames.capacity_mark _ _ _
    case taken =>
      intro g taken
      apply Bool.of_not_eq_false
      intro left
      rw [(Frames.free_mark.mp left).1] at taken
      cases taken
    case entry =>
      intro g i taken present
      have old : f ≠ g := by
        rintro rfl
        rw [free] at taken
        cases taken
      have other : ¬ (table = g ∧ a.part level = i) := by
        rintro ⟨rfl, rfl⟩
        rw [absent] at present
        cases present
      rw [Memory.entry_update, if_neg other, Memory.entry_clear, if_neg old]
      exact ⟨rfl, rfl, rfl⟩

theorem stays_fillSlots {below : Fill} (spec : ∀ s f a n, Stays s (below s f a n).value.2)
    (level table slots : Nat) : ∀ (s : Store) (a : Linear) (n : Nat),
      Stays s (fillSlots below level table slots s a n).value.2 := by
  induction slots with
  | zero =>
    intro s a n
    cases n <;> exact .refl s
  | succ slots ih =>
    intro s a n
    cases n with
    | zero => exact .refl s
    | succ n =>
      have first := stays_descend s level table a
      rw [fillSlots, Logged.value_bind]
      cases went : (s.descend level table a).value with
      | mk answer s₁ =>
        rw [went] at first
        cases answer with
        | error err => exact first
        | ok f =>
          have second := first.trans (spec s₁ f a (n + 1))
          simp only [Logged.value_bind]
          cases filled : (below s₁ f a (n + 1)).value with
          | mk answer s₂ =>
            rw [filled] at second
            cases answer with
            | error err => exact second
            | ok left => exact second.trans (ih s₂ _ left)

theorem stays_fill (level : Nat) : ∀ (s : Store) (table : Nat) (a : Linear) (n : Nat),
    Stays s (fill level s table a n).value.2 := by
  induction level with
  | zero => exact fun s _ _ _ => .refl s
  | succ level ih => exact fun s table a n => stays_fillSlots ih (level + 1) table _ s a n

theorem stays_map (s : Store) (root address pages : Nat) :
    Stays s (s.map root address pages).value.2 := by
  rw [value_map]
  exact stays_fill 4 s root (.ofNat address) pages

theorem stays_handleFault (s : Store) (root : Nat) (code : FaultCode) (address : Nat)
    (window : Span) : Stays s (s.handleFault root code address window).value.2 := by
  rw [handleFault]
  split
  · exact .refl s
  · exact stays_map s root address 1

/-! ## On the way of an address -/

/-- From the table at `level` on, entries that are present and not huge lead `a` to the table `g`
at level `l`, and all the tables on the way are taken. -/
inductive Leads (s : Store) (a : Linear) : (level table l g : Nat) → Prop where
  | here {level table : Nat} (taken : s.frames.isTaken table = true) :
      Leads s a level table level table
  | through {level table l g : Nat} (taken : s.frames.isTaken table = true)
      (present : (s.memory.entry table (a.part (level + 1))).present = true)
      (small : (s.memory.entry table (a.part (level + 1))).huge = false)
      (rest : Leads s a level (s.memory.entry table (a.part (level + 1))).frame l g) :
      Leads s a (level + 1) table l g

namespace Leads

theorem onward {f : Nat} (taken : s.frames.isTaken table = true)
    (present : (s.memory.entry table (a.part (level + 1))).present = true)
    (small : (s.memory.entry table (a.part (level + 1))).huge = false)
    (named : ((s.memory.entry table (a.part (level + 1))).frame : Nat) = f)
    (rest : s.Leads a level f l g) : s.Leads a (level + 1) table l g := by
  subst named
  exact .through taken present small rest

theorem taken (leads : s.Leads a level table l g) : s.frames.isTaken g = true := by
  induction leads with
  | here taken => exact taken
  | through _ _ _ _ ih => exact ih

theorem le (leads : s.Leads a level table l g) : l ≤ level := by
  induction leads with
  | here => exact Nat.le_refl _
  | through _ _ _ _ ih => exact Nat.le_succ_of_le ih

theorem later (leads : s.Leads a level table l g) (stays : Stays s s') :
    s'.Leads a level table l g := by
  induction leads with
  | here taken => exact .here (stays.taken _ taken)
  | through taken present small _ ih =>
    have alike := stays.entry _ _ taken present
    rw [← alike.2.2] at ih
    exact .through (stays.taken _ taken) (alike.1.trans present) (alike.2.1.trans small) ih

theorem walk_eq (leads : s.Leads a level table l g) (inner : l ≠ 0) :
    s.memory.walk a level table = s.memory.walk a l g := by
  induction leads with
  | here => rfl
  | through _ present small rest ih =>
    have below := rest.le
    exact (Memory.walk_table present small (by omega)).trans (ih inner)

end Leads

theorem descend_large (present : (s.memory.entry table (a.part level)).present = true)
    (huge : (s.memory.entry table (a.part level)).huge = true) (inner : 1 < level) :
    (s.descend level table a).value = (.error (.hugePage a.canonical.toNat), s) := by
  simp [descend, present, huge, inner]

theorem descend_table (present : (s.memory.entry table (a.part level)).present = true)
    (small : level ≤ 1 ∨ (s.memory.entry table (a.part level)).huge = false) :
    (s.descend level table a).value =
      (.ok (s.memory.entry table (a.part level)).frame, s.openEntry table (a.part level)) := by
  cases small with
  | inl last => simp [descend, child, present, Nat.not_lt_of_le last]
  | inr small => simp [descend, child, present, small]

/-- There is a slot to go through. -/
theorem exists_slots (a : Linear) (level : Nat) :
    ∃ slots, 512 - (a.part level).val = slots + 1 :=
  Nat.exists_eq_succ_of_ne_zero (Nat.sub_ne_zero_of_lt (a.part level).isLt)

/-- A run that starts in a large page is refused there, and needs no frame until then. -/
theorem fill_of_large (n : Nat) (inner : 1 < l) : ∀ {level : Nat} {s : Store} {table : Nat},
    s.Leads a level table l g → (s.memory.entry g (a.part l)).present = true →
      (s.memory.entry g (a.part l)).huge = true →
      (fill level s table a (n + 1)).value.1 = .error (.hugePage a.canonical.toNat) ∧
        (fill level s table a (n + 1)).value.2.frames = s.frames := by
  intro level
  induction level with
  | zero =>
    intro s table leads
    exact absurd leads.le (by omega)
  | succ level ih =>
    intro s table leads present huge
    obtain ⟨slots, some⟩ := exists_slots a (level + 1)
    rw [fill, some, fillSlots, Logged.value_bind]
    cases leads with
    | here =>
      rw [descend_large present huge inner]
      exact ⟨rfl, rfl⟩
    | through _ present' small rest =>
      have stays := stays_open s table (a.part (level + 1))
      have alike := stays.entry g (a.part l) rest.taken present
      have refused := ih (rest.later stays) (alike.1.trans present) (alike.2.1.trans huge)
      rw [descend_table present' (.inr small)]
      simp only [Logged.value_bind]
      cases filled : (fill level (s.openEntry table _) _ a (n + 1)).value with
      | mk answer s' =>
        rw [filled] at refused
        cases refused.1
        exact ⟨rfl, refused.2⟩

theorem map_of_large {root address pages : Nat} (leads : s.Leads (.ofNat address) 4 root l g)
    (present : (s.memory.entry g ((Linear.ofNat address).part l)).present = true)
    (huge : (s.memory.entry g ((Linear.ofNat address).part l)).huge = true) (inner : 1 < l)
    (some : 0 < pages) :
    (s.map root address pages).value.1 =
        .error (.hugePage (Linear.ofNat address).canonical.toNat) ∧
      (s.map root address pages).value.2.frames = s.frames := by
  obtain ⟨n, rfl⟩ := Nat.exists_eq_add_one.mpr some
  obtain ⟨refused, frames⟩ := fill_of_large n inner leads present huge
  rw [value_map, refused]
  exact ⟨rfl, frames⟩

/-! ## Runs -/

/-- What mapping and page faults, in whatever trees, can make of a store. -/
inductive Backed (s₀ : Store) : Store → Prop where
  | start : Backed s₀ s₀
  | map {s : Store} (root address pages : Nat) : Backed s₀ s →
      Backed s₀ (s.map root address pages).value.2
  | fault {s : Store} (root : Nat) (code : FaultCode) (address : Nat) (window : Span) :
      Backed s₀ s → Backed s₀ (s.handleFault root code address window).value.2

theorem stays_backed (run : Backed s s') : Stays s s' := by
  induction run with
  | start => exact .refl s
  | map root address pages _ ih => exact ih.trans (stays_map _ root address pages)
  | fault root code address window _ ih =>
    exact ih.trans (stays_handleFault _ root code address window)

end Store

namespace IdentityMap
open Store
variable {m : Memory} {frames : Frames} {root : Nat} {s : Store}

/-- The tables lead each address below the end of the map to its directory. -/
theorem leads_of_built (built : Built m root) (placed : Placed root)
    (apart : ∀ f, root ≤ f → f < root + tableCount → frames.isTaken f = true) {a : Nat}
    (low : a % Linear.reach < identityEnd) :
    ∃ i, i < directoryCount ∧ Leads ⟨frames, m⟩ (.ofNat a) 4 root 2 (directory root i) := by
  let slot (level : Nat) := (Linear.ofNat a).part level
  have gigabytes : identityEnd = 64 * 0x40000000 := rfl
  simp only [Linear.reach] at low
  simp only [Placed, tableCount, directoryCount, Entry.frameBound] at placed
  simp only [tableCount, directoryCount] at apart
  have top : (slot 4).val = a / 0x8000000000 % 512 := rfl
  have middle : (slot 3).val = a / 0x40000000 % 512 := rfl
  have zero : slot 4 = 0 := Fin.ext (by rw [top]; simp only [Fin.val_zero]; omega)
  have within : (slot 3).val < directoryCount := by
    simp only [directoryCount]
    omega
  have head : m.entry root (slot 4) = link (directories root) := by rw [zero, built.head]
  have linked := built.linked (slot 3) within
  have next : ((m.entry root (slot 4)).frame : Nat) = directories root := by
    rw [head, frame_link (by simp only [directories, Entry.frameBound]; omega)]
  have down : ((m.entry (directories root) (slot 3)).frame : Nat) = directory root (slot 3) := by
    simp only [directoryCount] at within
    rw [linked, frame_link (by simp only [directory, Entry.frameBound]; omega)]
  have page : Leads ⟨frames, m⟩ (.ofNat a) 2 (directory root (slot 3)) 2
      (directory root (slot 3)) :=
    .here (apart _ (by simp only [directory]; omega) (by simp only [directory]; omega))
  have table : Leads ⟨frames, m⟩ (.ofNat a) 3 (directories root) 2 (directory root (slot 3)) := by
    have taken := apart (directories root) (by simp only [directories]; omega)
      (by simp only [directories]; omega)
    exact .through taken ((congrArg Entry.present linked).trans rfl)
      ((congrArg Entry.huge linked).trans rfl) (down.symm ▸ page)
  exact ⟨slot 3, within, .through (apart root (by omega) (by omega))
    ((congrArg Entry.present head).trans rfl) ((congrArg Entry.huge head).trans rfl)
    (next.symm ▸ table)⟩

/-- **The identity map stays.** Whatever is mapped and whatever faults are resolved, in whatever
trees and with whatever outcome, the addresses below its end are translated to themselves, and no
run that starts at one of them can be mapped. -/
theorem identity_map_stays (bare : Bare m root) (placed : Placed root)
    (apart : ∀ f, root ≤ f → f < root + tableCount → frames.isTaken f = true)
    (run : Backed ⟨frames, (build m root).value⟩ s) :
    (∀ a, a < identityEnd → s.memory.translate root a = some a) ∧
    ∀ address pages, 0 < pages → address % Linear.reach < identityEnd →
      (s.map root address pages).value.1 =
          .error (.hugePage (Linear.ofNat address).canonical.toNat) ∧
        (s.map root address pages).value.2.frames = s.frames := by
  have built := built_build bare
  have stays := stays_backed run
  -- what holds of the directory that an address is led to holds to the end of the run
  have large {a : Nat} (low : a % Linear.reach < identityEnd) :
      ∃ g, Leads ⟨frames, (build m root).value⟩ (.ofNat a) 4 root 2 g ∧
        s.Leads (.ofNat a) 4 root 2 g ∧
        ((build m root).value.entry g ((Linear.ofNat a).part 2)).present = true ∧
        ((build m root).value.entry g ((Linear.ofNat a).part 2)).huge = true ∧
        ((build m root).value.entry g ((Linear.ofNat a).part 2)).Alike
          (s.memory.entry g ((Linear.ofNat a).part 2)) := by
    obtain ⟨i, within, leads⟩ := leads_of_built built placed apart low
    have leaf := (built.filled i within ((Linear.ofNat a).part 2)).trans (get_directoryTable _ _)
    have present := (congrArg Entry.present leaf).trans rfl
    exact ⟨_, leads, leads.later stays, present, (congrArg Entry.huge leaf).trans rfl,
      stays.entry _ _ leads.taken present⟩
  constructor
  case left =>
    intro a low
    have start := (translate_eq_self_iff built placed).mpr low
    have lower : a % Linear.reach < identityEnd := Nat.lt_of_le_of_lt (Nat.mod_le _ _) low
    obtain ⟨g, leads, leads', present, huge, alike⟩ := large lower
    rw [Memory.translate, leads.walk_eq (by decide),
      Memory.walk_large present huge (by decide)] at start
    rw [Memory.translate, leads'.walk_eq (by decide),
      Memory.walk_large (alike.1.trans present) (alike.2.1.trans huge) (by decide), ← start,
      Entry.pointer, Entry.pointer, alike.2.2]
  case right =>
    intro address pages some low
    obtain ⟨g, -, leads', present, huge, alike⟩ := large low
    exact map_of_large leads' (alike.1.trans present) (alike.2.1.trans huge) (by decide) some

/-- A run far above the end of the map adds tables to the ones that lead to it, a fault adds one
at the top, and a run just below the end of the map is refused. -/
theorem identity_map_stays_beside_page :
    let frames := (Frames.full 4).release 100 40
    let s₁ := (Store.map ⟨frames, (build (clear (Memory.filled (.ofNat 0x2003)) 1) 1).value⟩ 1
      0x1000000000 3).value.2
    let s₂ := (s₁.handleFault 1 (.ofNat 2) 0xffff800000001000 ⟨0, 0xffffffffffffffff⟩).value.2
    frames.isTaken 100 = false ∧ s₂.memory.translate 1 0xabcd1234 = some 0xabcd1234 ∧
      (s₂.map 1 0xfffff000 2).value.1 = .error (.hugePage 0xfffff000) ∧
      (s₂.map 1 0xfffff000 2).value.2.frames = s₂.frames := by
  intro frames s₁ s₂
  have bare : Bare (clear (Memory.filled (.ofNat 0x2003)) 1) 1 := bare_clear _ _
  have placed : Placed 1 := by
    unfold Placed
    decide
  have apart : ∀ f, 1 ≤ f → f < 1 + tableCount → frames.isTaken f = true := by
    have listed : ∀ f, f < 1 + tableCount → frames.isTaken f = true := by decide
    exact fun f _ below => listed f below
  have run : Backed ⟨frames, (build (clear (Memory.filled (.ofNat 0x2003)) 1) 1).value⟩ s₂ :=
    .fault _ _ _ _ (.map _ _ _ .start)
  obtain ⟨same, refused⟩ := identity_map_stays bare placed apart run
  exact ⟨by decide, same _ (by decide), refused _ _ (by decide) (by decide)⟩

end IdentityMap

end Nucleus
