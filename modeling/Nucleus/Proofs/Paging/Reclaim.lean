import Nucleus.Proofs.Paging.Ownership

/-!
# Reclaiming

Teardown leaves alone what looks like a large page, at the last level too, so in an arbitrary tree
it does not give every frame back. What can be said of every tree is that it clears entries and
frees frames and does nothing else. Where each frame has one path, the frames that it does free are
those that hang by an entry without the size bit, and no others.

* `Fades`: what may happen to a store while parts of a tree are taken down.
* `Hangs`: a frame, and the entry that it hangs by.
* `fades_drain`, `drain_frees`: taking down a table does no more than that, and no less.
* `unmaps_free`: so unmapping slot after slot frees all that hangs below them.
* `drain_hangs`, `unmapSlot_hangs`: a tree with one path to each frame loses no other frame.
* `isTaken_unmapSlot_page`: so a page is given back unless its entry has the size bit.
-/

namespace Nucleus

namespace Memory
variable {m : Memory} {level table f g : Nat} {i j : Fin 512} {p q : List (Fin 512)}

/-- Each frame below a table has one path. -/
def Single (m : Memory) (level table : Nat) : Prop :=
  ∀ p q f, m.follow level table p = some f → m.follow level table q = some f → p = q

theorem Single.below (single : m.Single (level + 1) table)
    (linked : m.link? (level + 1) table i = some f) : m.Single level f := by
  intro p q g hp hq
  exact (List.cons.inj (single (i :: p) (i :: q) g ((follow_link linked).trans hp)
    ((follow_link linked).trans hq))).2

theorem Single.not_root (single : m.Single level table) :
    m.follow level table (i :: p) ≠ some table := by
  intro back
  cases single _ _ _ back follow_nil

theorem Single.slot_eq (single : m.Single level table)
    (hp : m.follow level table (i :: p) = some g) (hq : m.follow level table (j :: q) = some g) :
    i = j := (List.cons.inj (single _ _ g hp hq)).1

end Memory

namespace Store
variable {s s' s'' t : Store} {level table root f g c : Nat} {i j k : Fin 512}
  {p q rest : List (Fin 512)} {R R' : Nat → Fin 512 → Prop}

/-! ## What may happen -/

/-- From `s` to `s'` some entries were cleared and some frames given back. -/
structure Fades (R : Nat → Fin 512 → Prop) (s s' : Store) : Prop where
  capacity : s'.frames.capacity = s.frames.capacity
  free : ∀ f, s.frames.isTaken f = false → s'.frames.isTaken f = false
  entry : ∀ g i, s'.memory.entry g i = s.memory.entry g i ∨ R g i ∧ s'.memory.entry g i = .zero

/-- The entries of all that hangs below a table. -/
def Below (s : Store) (level table g : Nat) (_ : Fin 512) : Prop :=
  ∃ p, s.memory.follow level table p = some g

/-- Slot `i` of a table, and the entries of all that hangs below it. -/
def Under (s : Store) (level table : Nat) (i : Fin 512) (g : Nat) (j : Fin 512) : Prop :=
  table = g ∧ i = j ∨ ∃ p, s.memory.follow level table (i :: p) = some g

theorem Under.inside (under : s.Under level table i g j) : s.Below level table g j := by
  obtain ⟨rfl, -⟩ | ⟨p, leads⟩ := under
  · exact ⟨[], Memory.follow_nil⟩
  · exact ⟨i :: p, leads⟩

namespace Fades

theorem refl (R : Nat → Fin 512 → Prop) (s : Store) : Fades R s s :=
  ⟨rfl, fun _ free => free, fun _ _ => .inl rfl⟩

theorem mono (fades : Fades R s s') (more : ∀ g i, R g i → R' g i) : Fades R' s s' :=
  ⟨fades.capacity, fades.free, fun g i => (fades.entry g i).imp_right (And.imp_left (more g i))⟩

theorem trans (first : Fades R s s') (second : Fades R s' s'') : Fades R s s'' := by
  constructor
  case capacity => exact second.capacity.trans first.capacity
  case free => exact fun f free => second.free f (first.free f free)
  case entry =>
    intro g i
    cases second.entry g i with
    | inl same =>
      rw [same]
      exact first.entry g i
    | inr clear => exact .inr clear

/-- What is left of a tree was there before. -/
theorem follow_of (fades : Fades R s s') : ∀ {level table : Nat} {p : List (Fin 512)},
    s'.memory.follow level table p = some f → s.memory.follow level table p = some f := by
  intro level
  induction level with
  | zero =>
    intro table p leads
    cases p with
    | nil => simpa using leads
    | cons i p => simp at leads
  | succ level ih =>
    intro table p leads
    cases p with
    | nil => simpa using leads
    | cons i p =>
      obtain ⟨g, linked, rest⟩ := Memory.follow_cons_eq_some.mp leads
      cases fades.entry table i with
      | inl same =>
        have before := (Memory.link?_congr same).symm.trans linked
        exact (Memory.follow_link before).trans (ih rest)
      | inr clear =>
        rw [Memory.link?_of_absent (by rw [clear.2]; rfl)] at linked
        cases linked

theorem inside (fades : Fades R s s') (inside : s'.Below level table g i) :
    s.Below level table g i := by
  obtain ⟨p, leads⟩ := inside
  exact ⟨p, fades.follow_of leads⟩

theorem single (fades : Fades R s s') (single : s.memory.Single level table) :
    s'.memory.Single level table :=
  fun p q f hp hq => single p q f (fades.follow_of hp) (fades.follow_of hq)

theorem same (fades : Fades R s s') (out : ¬R g i) : s'.memory.entry g i = s.memory.entry g i :=
  (fades.entry g i).resolve_right fun clear => out clear.1

/-- An entry that may be cleared is. -/
theorem put (fades : Fades R s s') (here : R table i) :
    Fades R s { s' with memory := s'.memory.put table i .zero } := by
  constructor
  case capacity => exact fades.capacity
  case free => exact fades.free
  case entry =>
    intro g j
    rw [Memory.entry_put]
    split
    · next same =>
      obtain ⟨rfl, rfl⟩ := same
      exact .inr ⟨here, rfl⟩
    · exact fades.entry g j

theorem release (fades : Fades R s s') (f : Nat) :
    Fades R s { s' with frames := s'.frames.release f 1 } := by
  constructor
  case capacity => exact (Frames.capacity_release _ _ _).trans fades.capacity
  case free =>
    intro g free
    have left := fades.free g free
    exact Frames.free_release.mpr ⟨Frames.lt_capacity_of_free left, .inl left⟩
  case entry => exact fades.entry

end Fades

section
variable {below : Store → Nat → Store}

theorem fades_drop (spec : ∀ s f, Fades (s.Below level f) s (below s f)) (s : Store) (table : Nat)
    (i : Fin 512) : Fades (s.Under (level + 1) table i) s (drop below s table i) := by
  have here : s.Under (level + 1) table i table i := .inl ⟨rfl, rfl⟩
  cases present : (s.memory.entry table i).present with
  | false =>
    simp only [drop, present]
    exact .refl _ s
  | true =>
    cases huge : (s.memory.entry table i).huge with
    | true =>
      simp only [drop, present, huge]
      exact (Fades.refl _ s).put here
    | false =>
      have linked : s.memory.link? (level + 1) table i =
          some ((s.memory.entry table i).frame : Nat) :=
        Memory.link?_of_table present (.inr huge)
      have first : Fades (s.Under (level + 1) table i) s
          (below s (s.memory.entry table i).frame) := by
        apply (spec s _).mono
        rintro g j ⟨p, leads⟩
        exact .inr ⟨p, (Memory.follow_link linked).trans leads⟩
      simp only [drop, present, huge]
      exact (first.release _).put here

theorem fades_foldl (spec : ∀ s f, Fades (s.Below level f) s (below s f)) (slots : List (Fin 512)) :
    ∀ s : Store, Fades (s.Below (level + 1) table) s
      (slots.foldl (fun s i => drop below s table i) s) := by
  induction slots with
  | nil => exact fun s => .refl _ s
  | cons i slots ih =>
    intro s
    have first := fades_drop spec s table i
    exact (first.mono fun _ _ => Under.inside).trans ((ih _).mono fun _ _ => first.inside)

end

theorem fades_drain (level : Nat) : ∀ (s : Store) (table : Nat),
    Fades (s.Below level table) s (drain level s table) := by
  induction level with
  | zero => exact fun s table => .refl _ s
  | succ level ih => exact fun s table => fades_foldl ih (List.finRange 512) s

theorem fades_unmapSlot (s : Store) (root : Nat) (i : Fin 512) :
    Fades (s.Under 4 root i) s (s.unmapSlot root i) := by
  have here : s.Under 4 root i root i := .inl ⟨rfl, rfl⟩
  cases present : (s.memory.entry root i).present with
  | false =>
    simp only [unmapSlot, present]
    exact .refl _ s
  | true =>
    have linked : s.memory.link? 4 root i = some ((s.memory.entry root i).frame : Nat) :=
      Memory.link?_eq_some.mpr ⟨present, by simp [Entry.large], rfl⟩
    have first := (Fades.refl (s.Under 4 root i) s).put here
    rw [unmapSlot_of_present present rfl]
    apply (first.trans _).release
    apply (fades_drain 3 _ _).mono
    intro g j inside
    obtain ⟨p, leads⟩ := first.inside inside
    exact .inr ⟨p, (Memory.follow_link linked).trans leads⟩

/-! ## What does happen -/

/-- Frame `c` hangs by entry `j` of the table `g` that the path `q` leads to, and the entry does not
look like that of a large page. -/
structure Hangs (level table : Nat) (q : List (Fin 512)) (g : Nat) (j : Fin 512) (c : Nat)
    (s : Store) : Prop where
  leads : s.memory.follow level table q = some g
  short : q.length < level
  present : (s.memory.entry g j).present = true
  small : (s.memory.entry g j).huge = false
  frame : ((s.memory.entry g j).frame : Nat) = c

namespace Hangs

theorem follow (hangs : Hangs level table q g j c s) :
    s.memory.follow level table (q ++ [j]) = some c := by
  apply Memory.follow_concat.mpr
  refine ⟨g, hangs.leads, hangs.short, Memory.link?_eq_some.mpr ⟨hangs.present, ?_, hangs.frame⟩⟩
  simp [Entry.large, hangs.small]

theorem above (hangs : Hangs level f q g j c s)
    (linked : s.memory.link? (level + 1) table i = some f) :
    Hangs (level + 1) table (i :: q) g j c s :=
  ⟨(Memory.follow_link linked).trans hangs.leads, Nat.succ_lt_succ hangs.short, hangs.present,
    hangs.small, hangs.frame⟩

/-- What hangs in what is left of a tree hung there before. -/
theorem before (hangs : Hangs level table q g j c s') (fades : Fades R s s') :
    Hangs level table q g j c s := by
  obtain ⟨leads, short, present, small, frame⟩ := hangs
  have same : s'.memory.entry g j = s.memory.entry g j := by
    apply (fades.entry g j).resolve_right
    rintro ⟨-, clear⟩
    rw [clear] at present
    cases present
  rw [same] at present small frame
  exact ⟨fades.follow_of leads, short, present, small, frame⟩

/-- What hangs below one slot does not notice that another one is taken down. -/
theorem kept (hangs : Hangs level table q g j c s) (fades : Fades (s.Under level table k) s s')
    (single : s.memory.Single level table) (first : q ++ [j] = i :: rest) (other : k ≠ i) :
    Hangs level table q g j c s' := by
  obtain ⟨leads, short, present, small, frame⟩ := hangs
  have top : s'.memory.entry table i = s.memory.entry table i := by
    apply fades.same
    rintro (⟨-, same⟩ | ⟨p, back⟩)
    · exact other same
    · exact single.not_root back
  have below : ∀ p h, s.memory.follow level table (i :: p) = some h →
      ∀ l, s'.memory.entry h l = s.memory.entry h l := by
    intro p h inside l
    apply fades.same
    rintro (⟨rfl, -⟩ | ⟨p', there⟩)
    · exact single.not_root inside
    · exact other (single.slot_eq there inside)
  cases q with
  | nil =>
    obtain rfl : table = g := by simpa using leads
    obtain ⟨rfl, -⟩ : j = i ∧ [] = rest := by simpa using first
    rw [← top] at present small frame
    exact ⟨Memory.follow_nil, short, present, small, frame⟩
  | cons l q =>
    obtain ⟨rfl, -⟩ : l = i ∧ q ++ [j] = rest := by simpa using first
    rw [← below q g leads j] at present small frame
    exact ⟨(Memory.follow_slot top below q).trans leads, short, present, small, frame⟩

end Hangs

section
variable {below : Store → Nat → Store}

/-- An entry is the same when it is read again, before the frame that it names is given back. -/
theorem entry_again (spec : ∀ s f, Fades (s.Below level f) s (below s f))
    (single : s.memory.Single (level + 1) table)
    (linked : s.memory.link? (level + 1) table i = some f) :
    (below s f).memory.entry table i = s.memory.entry table i := by
  apply (spec s f).same
  rintro ⟨p, back⟩
  exact single.not_root ((Memory.follow_link linked).trans back)

theorem drop_frees (low : level + 1 ≤ 3) (spec : ∀ s f, Fades (s.Below level f) s (below s f))
    (frees : ∀ s f q g j, s.memory.Single level f → Hangs level f q g j c s →
      c < s.frames.capacity → (below s f).frames.isTaken c = false)
    (single : s.memory.Single (level + 1) table) (hangs : Hangs (level + 1) table q g j c s)
    (known : c < s.frames.capacity) (first : q ++ [j] = i :: rest) :
    (drop below s table i).frames.isTaken c = false := by
  obtain ⟨leads, short, present, small, frame⟩ := hangs
  cases q with
  | nil =>
    obtain rfl : table = g := by simpa using leads
    obtain ⟨rfl, -⟩ : j = i ∧ [] = rest := by simpa using first
    have linked : s.memory.link? (level + 1) table j =
        some ((s.memory.entry table j).frame : Nat) :=
      Memory.link?_of_table present (.inr small)
    have fades := spec s (s.memory.entry table j).frame
    have again := entry_again spec single linked
    subst frame
    simp only [drop, present, small, again]
    apply (Frames.free_after_release_one (frame_small _)).mpr
    exact .inr ⟨fades.capacity ▸ known, rfl⟩
  | cons l q =>
    obtain ⟨rfl, -⟩ : l = i ∧ q ++ [j] = rest := by simpa using first
    obtain ⟨f, linked, inner⟩ := Memory.follow_cons_eq_some.mp leads
    obtain ⟨there, table', rfl⟩ := Memory.link?_eq_some.mp linked
    have plain : (s.memory.entry table l).huge = false := by
      simp only [Entry.large, List.length_cons] at table' short
      cases huge : (s.memory.entry table l).huge with
      | false => rfl
      | true =>
        simp [huge] at table'
        omega
    have gone := frees s _ q g j (single.below linked)
      ⟨inner, Nat.lt_of_succ_lt_succ short, present, small, frame⟩ known
    simp only [drop, there, plain]
    exact (Frames.free_after_release_one (frame_small _)).mpr (.inl gone)

theorem foldl_frees (low : level + 1 ≤ 3) (spec : ∀ s f, Fades (s.Below level f) s (below s f))
    (frees : ∀ s f q g j, s.memory.Single level f → Hangs level f q g j c s →
      c < s.frames.capacity → (below s f).frames.isTaken c = false)
    (slots : List (Fin 512)) : ∀ s : Store, s.memory.Single (level + 1) table →
      Hangs (level + 1) table q g j c s → c < s.frames.capacity → q ++ [j] = i :: rest →
      i ∈ slots → (slots.foldl (fun s i => drop below s table i) s).frames.isTaken c = false := by
  induction slots with
  | nil => exact fun _ _ _ _ _ none => absurd none List.not_mem_nil
  | cons k slots ih =>
    intro s single hangs known first listed
    have fades := fades_drop spec s table k
    by_cases here : k = i
    · subst here
      exact (fades_foldl spec slots _).free c (drop_frees low spec frees single hangs known first)
    · have later : i ∈ slots := (List.mem_cons.mp listed).resolve_left (Ne.symm here)
      exact ih _ (fades.single single) (hangs.kept fades single first here)
        (fades.capacity ▸ known) first later

end

/-- Taking down a table frees all that hangs below it. -/
theorem drain_frees : ∀ (level : Nat), level ≤ 3 → ∀ (s : Store) (table : Nat) (q : List (Fin 512))
    (g : Nat) (j : Fin 512), s.memory.Single level table → Hangs level table q g j c s →
      c < s.frames.capacity → (drain level s table).frames.isTaken c = false := by
  intro level
  induction level with
  | zero =>
    intro _ s table q g j _ hangs
    exact absurd hangs.short (Nat.not_lt_zero _)
  | succ level ih =>
    intro low s table q g j single hangs known
    obtain ⟨i, rest, first⟩ := List.exists_cons_of_ne_nil (l := q ++ [j]) (by simp)
    exact foldl_frees low (fades_drain level) (ih (Nat.le_of_succ_le low)) _ s single hangs known
      first (List.mem_finRange i)

theorem unmapSlot_frees (single : s.memory.Single 4 root) (hangs : Hangs 4 root q g j c s)
    (known : c < s.frames.capacity) (first : q ++ [j] = i :: rest) :
    (s.unmapSlot root i).frames.isTaken c = false := by
  have cleared := (Fades.refl (s.Under 4 root i) s).put (.inl ⟨rfl, rfl⟩)
  obtain ⟨leads, short, present, small, frame⟩ := hangs
  cases q with
  | nil =>
    obtain rfl : root = g := by simpa using leads
    obtain ⟨rfl, -⟩ : j = i ∧ [] = rest := by simpa using first
    subst frame
    have kept := (fades_drain 3 ⟨s.frames, s.memory.put root j .zero⟩
      (s.memory.entry root j).frame).capacity
    rw [unmapSlot_of_present present rfl]
    apply (Frames.free_after_release_one (frame_small _)).mpr
    exact .inr ⟨Nat.lt_of_lt_of_eq known kept.symm, rfl⟩
  | cons l q =>
    obtain ⟨rfl, -⟩ : l = i ∧ q ++ [j] = rest := by simpa using first
    obtain ⟨f, linked, inner⟩ := Memory.follow_cons_eq_some.mp leads
    obtain ⟨there, -, rfl⟩ := Memory.link?_eq_some.mp linked
    -- the slot is cleared first, and that is not noticed below it
    have aside : ∀ p h, s.memory.follow 3 (s.memory.entry root l).frame p = some h →
        ∀ j, (s.memory.put root l .zero).entry h j = s.memory.entry h j := by
      intro p h inside j
      rw [Memory.entry_put, if_neg]
      rintro ⟨rfl, -⟩
      exact single.not_root ((Memory.follow_link linked).trans inside)
    have same : ∀ p, (s.memory.put root l .zero).follow 3 (s.memory.entry root l).frame p =
        s.memory.follow 3 (s.memory.entry root l).frame p :=
      Memory.follow_congr fun p h _ inside _ j => Memory.link?_congr (aside p h inside j)
    have entry := aside q g inner j
    rw [← entry] at present small frame
    have gone := drain_frees 3 (Nat.le_refl 3) ⟨s.frames, s.memory.put root l .zero⟩ _ q g j
      (cleared.single (single.below linked))
      ⟨(same q).trans inner, Nat.lt_of_succ_lt_succ short, present, small, frame⟩ known
    rw [unmapSlot_of_present there rfl]
    exact (Frames.free_after_release_one (frame_small _)).mpr (.inl gone)

/-- Unmapping slot after slot frees all that hangs below any of them. -/
theorem unmaps_free (bs : List Nat) : ∀ s : Store, s.memory.Single 4 root →
    Hangs 4 root q g j c s → c < s.frames.capacity → q ++ [j] = i :: rest →
      (∃ b ∈ bs, (Linear.ofNat b).part 4 = i) →
      (bs.foldl (fun s b => s.unmap root b) s).frames.isTaken c = false := by
  have stays (bs : List Nat) : ∀ s : Store, s.frames.isTaken c = false →
      (bs.foldl (fun s b => s.unmap root b) s).frames.isTaken c = false := by
    induction bs with
    | nil => exact fun s free => free
    | cons b bs ih => exact fun s free => ih _ ((fades_unmapSlot s root _).free c free)
  induction bs with
  | nil => exact fun _ _ _ _ _ ⟨_, listed, _⟩ => absurd listed List.not_mem_nil
  | cons b bs ih =>
    intro s single hangs known first listed
    have fades := fades_unmapSlot s root ((Linear.ofNat b).part 4)
    by_cases here : (Linear.ofNat b).part 4 = i
    · subst here
      exact stays bs _ (unmapSlot_frees single hangs known first)
    · obtain ⟨b', there, slot⟩ := listed
      have later : b' ∈ bs := by
        apply (List.mem_cons.mp there).resolve_left
        rintro rfl
        exact here slot
      exact ih _ (fades.single single) (hangs.kept fades single first here)
        (fades.capacity ▸ known) first ⟨b', later, slot⟩

/-! ## What else does not -/

section
variable {below : Store → Nat → Store} (spec : ∀ s f, Fades (s.Below level f) s (below s f))
  (only : ∀ s f, s.memory.Single level f → s.frames.isTaken c = true →
    (below s f).frames.isTaken c = false → ∃ q g j, Hangs level f q g j c s)
include spec only

theorem drop_hangs (single : s.memory.Single (level + 1) table)
    (taken : s.frames.isTaken c = true) (freed : (drop below s table i).frames.isTaken c = false) :
    ∃ q g j, Hangs (level + 1) table q g j c s := by
  have unchanged : (drop below s table i).frames ≠ s.frames := by
    intro same
    rw [same, taken] at freed
    cases freed
  cases present : (s.memory.entry table i).present with
  | false =>
    simp only [drop, present] at unchanged
    exact absurd rfl unchanged
  | true =>
    cases huge : (s.memory.entry table i).huge with
    | true =>
      simp only [drop, present, huge] at unchanged
      exact absurd rfl unchanged
    | false =>
      have linked : s.memory.link? (level + 1) table i =
          some ((s.memory.entry table i).frame : Nat) :=
        Memory.link?_of_table present (.inr huge)
      have again := entry_again spec single linked
      simp only [drop, present, huge, again] at freed
      obtain gone | ⟨-, frame⟩ := (Frames.free_after_release_one (frame_small _)).mp freed
      · obtain ⟨q, g, j, hangs⟩ := only s _ (single.below linked) taken gone
        exact ⟨i :: q, g, j, hangs.above linked⟩
      · exact ⟨[], table, i, Memory.follow_nil, Nat.succ_pos _, present, huge, frame.symm⟩

theorem foldl_hangs (slots : List (Fin 512)) : ∀ s : Store, s.memory.Single (level + 1) table →
    s.frames.isTaken c = true →
    (slots.foldl (fun s i => drop below s table i) s).frames.isTaken c = false →
      ∃ q g j, Hangs (level + 1) table q g j c s := by
  induction slots with
  | nil =>
    intro s _ taken freed
    rw [List.foldl_nil, taken] at freed
    cases freed
  | cons i slots ih =>
    intro s single taken freed
    have fades := fades_drop spec s table i
    cases now : (drop below s table i).frames.isTaken c with
    | false => exact drop_hangs spec only single taken now
    | true =>
      obtain ⟨q, g, j, hangs⟩ := ih _ (fades.single single) now freed
      exact ⟨q, g, j, hangs.before fades⟩

end

/-- Taking down a table frees nothing but what hangs below it. -/
theorem drain_hangs : ∀ (level : Nat) (s : Store) (table : Nat), s.memory.Single level table →
    s.frames.isTaken c = true → (drain level s table).frames.isTaken c = false →
      ∃ q g j, Hangs level table q g j c s := by
  intro level
  induction level with
  | zero =>
    intro s table _ taken freed
    rw [drain, taken] at freed
    cases freed
  | succ level ih =>
    exact fun s table single => foldl_hangs (fades_drain level) ih _ s single

/-- Unmapping a slot frees what the slot itself names, whatever its size bit, and of all else only
what hangs in the tree. -/
theorem unmapSlot_hangs (single : s.memory.Single 4 root) (taken : s.frames.isTaken c = true)
    (freed : (s.unmapSlot root i).frames.isTaken c = false) :
    s.memory.follow 4 root [i] = some c ∨ ∃ q g j, Hangs 4 root q g j c s := by
  cases present : (s.memory.entry root i).present with
  | false =>
    simp only [unmapSlot, present] at freed
    exact absurd (taken.symm.trans freed) (by decide)
  | true =>
    have linked : s.memory.link? 4 root i = some ((s.memory.entry root i).frame : Nat) :=
      Memory.link?_eq_some.mpr ⟨present, by simp [Entry.large], rfl⟩
    have cleared := (Fades.refl (s.Under 4 root i) s).put (.inl ⟨rfl, rfl⟩)
    rw [unmapSlot_of_present present rfl] at freed
    obtain gone | ⟨-, rfl⟩ := (Frames.free_after_release_one (frame_small _)).mp freed
    · have below := cleared.single (single.below linked)
      obtain ⟨q, g, j, hangs⟩ := drain_hangs 3 _ _ below taken gone
      exact .inr ⟨i :: q, g, j, (hangs.before cleared).above linked⟩
    · exact .inl ((Memory.follow_link linked).trans Memory.follow_nil)

/-- A page is given back with the slot that it lies below, unless its entry has the size bit. -/
theorem isTaken_unmapSlot_page (single : s.memory.Single 4 root)
    (leads : s.memory.follow 4 root q = some g) (last : q.length = 3)
    (present : (s.memory.entry g j).present = true) (frame : ((s.memory.entry g j).frame : Nat) = c)
    (taken : s.frames.isTaken c = true) (known : c < s.frames.capacity)
    (first : q ++ [j] = i :: rest) :
    (s.unmapSlot root i).frames.isTaken c = (s.memory.entry g j).huge := by
  have short : q.length < 4 := last ▸ by decide
  cases huge : (s.memory.entry g j).huge with
  | false => exact unmapSlot_frees single ⟨leads, short, present, huge, frame⟩ known first
  | true =>
    have page : s.memory.follow 4 root (q ++ [j]) = some c := by
      refine Memory.follow_concat.mpr ⟨g, leads, short, ?_⟩
      rw [last, Memory.link?_of_table present (.inl rfl), frame]
    apply Bool.of_not_eq_false
    intro freed
    obtain slot | ⟨q', g', j', hangs⟩ := unmapSlot_hangs single taken freed
    · have length := congrArg List.length (single _ _ c slot page)
      rw [List.length_append, last] at length
      cases length
    · -- the page has one path, so it hangs by that very entry
      obtain ⟨rfl, rfl⟩ : q' = q ∧ j' = j := by
        simpa using single _ _ c hangs.follow page
      obtain rfl : g' = g := Option.some.inj (hangs.leads.symm.trans leads)
      exact absurd (huge.symm.trans hangs.small) (by decide)

end Store

end Nucleus
