import Nucleus.Proofs.Paging.Agreement
import Nucleus.Proofs.Paging.Faults
import Nucleus.Proofs.Paging.Reclaim

/-!
# One page in a table that is there

A page whose page table is there takes one frame, and one entry is filled in for it. In a tree with
one path to each frame that entry is all that leads to the page. So it is all that the clean-up has
to find the page by, and it has kept its size bit.

* `fill_last`: mapping such a page plants one frame and comes to nothing else.
* `follow_plant`, `single_plant`: one path is added to the tree, the one to that frame.
* `isTaken_unmap_map`: after the clean-up the frame is taken if the size bit was left over, and free
  if it was not.
-/

namespace Nucleus
open Platform

namespace Memory
variable {m m' : Memory} {level table : Nat} {i : Fin 512}

theorem link?_of_alike (alike : (m.entry table i).Alike (m'.entry table i)) :
    m'.link? level table i = m.link? level table i := by
  obtain ⟨present, huge, frame⟩ := alike
  simp [link?, Entry.large, present, huge, frame]

end Memory

namespace Store
variable {s s' : Store} {a : Linear} {level table root f g h address : Nat} {i : Fin 512}
  {p : List (Fin 512)} {fs : Frames}

/-- The frames of the tree below a table are taken. -/
def Kept (s : Store) (level table : Nat) : Prop :=
  ∀ p f, s.memory.follow level table p = some f → s.frames.isTaken f = true

theorem Kept.below (kept : s.Kept (level + 1) table)
    (linked : s.memory.link? (level + 1) table i = some f) : s.Kept level f :=
  fun p h leads => kept (i :: p) h ((Memory.follow_link linked).trans leads)

theorem Kept.top (kept : s.Kept level table) : s.frames.isTaken table = true :=
  kept [] table Memory.follow_nil

/-- Every path of a tree whose frames are taken leads where it did. -/
theorem Stays.follow (stays : Stays s s') : ∀ {level table : Nat} {p : List (Fin 512)},
    s.Kept level table → s.memory.follow level table p = some h →
      s'.memory.follow level table p = some h := by
  intro level
  induction level with
  | zero =>
    intro table p _ leads
    cases p with
    | nil => simpa using leads
    | cons i p => cases leads
  | succ level ih =>
    intro table p kept leads
    cases p with
    | nil => simpa using leads
    | cons i p =>
      obtain ⟨f, linked, rest⟩ := Memory.follow_cons_eq_some.mp leads
      have present := (Memory.link?_eq_some.mp linked).1
      have alike := stays.entry table i kept.top present
      exact (Memory.follow_link ((Memory.link?_of_alike alike).trans linked)).trans
        (ih (kept.below linked) rest)

/-- The way of an address is the first part of its path. -/
theorem follow_of_leads {l : Nat} (leads : s.Leads a level table l g) :
    ∃ q, a.path level = q ++ a.path l ∧ s.memory.follow level table q = some g := by
  induction leads with
  | here => exact ⟨[], rfl, Memory.follow_nil⟩
  | @through level table l g _ present small _ ih =>
    obtain ⟨q, path, leads⟩ := ih
    refine ⟨a.part (level + 1) :: q, congrArg _ path, ?_⟩
    exact (Memory.follow_link (Memory.link?_of_table present (.inr small))).trans leads

/-- The path of a page leads to its page table with all but the last slot. -/
theorem path_of_leads (leads : s.Leads a 4 root 1 g) :
    ∃ q, a.path 4 = q ++ [a.part 1] ∧ q.length = 3 ∧ s.memory.follow 4 root q = some g := by
  obtain ⟨q, path, leads⟩ := follow_of_leads leads
  have length := Linear.length_path a 4
  rw [path, List.length_append] at length
  exact ⟨q, path, Nat.succ.inj length, leads⟩

/-! ## The planted frame -/

/-- A new frame is at the end of one path, and all other paths were there before. -/
theorem follow_plant (granted : Granted s f fs) (known : s.frames.isTaken g = true) :
    ∀ {level table : Nat} {p : List (Fin 512)}, s.Kept level table →
      (s.plant fs f g i).memory.follow level table p = some h →
        s.memory.follow level table p = some h ∨
          h = f ∧ ∃ q, p = q ++ [i] ∧ s.memory.follow level table q = some g := by
  intro level
  induction level with
  | zero =>
    intro table p _ leads
    cases p with
    | nil => exact .inl (by simpa using leads)
    | cons j p => cases leads
  | succ level ih =>
    intro table p kept leads
    cases p with
    | nil => exact .inl (by simpa using leads)
    | cons j p =>
      obtain ⟨c, linked, rest⟩ := Memory.follow_cons_eq_some.mp leads
      by_cases here : g = table ∧ i = j
      · obtain ⟨rfl, rfl⟩ := here
        obtain ⟨-, -, frame⟩ := Memory.link?_eq_some.mp linked
        rw [granted.entry known, Entry.frame_planted granted.small] at frame
        subst frame
        cases p with
        | nil => exact .inr ⟨by simpa using rest.symm, [], rfl, Memory.follow_nil⟩
        | cons k p =>
          rw [Memory.follow_of_zero (granted.clear known i k)] at rest
          cases rest
      · have same : (s.plant fs f g i).memory.entry table j = s.memory.entry table j := by
          rw [entry_plant, if_neg here, if_neg (granted.ne kept.top)]
        have link := (Memory.link?_congr same).symm.trans linked
        obtain old | ⟨rfl, q, rfl, before⟩ := ih (kept.below link) rest
        · exact .inl ((Memory.follow_link link).trans old)
        · exact .inr ⟨rfl, j :: q, rfl, (Memory.follow_link link).trans before⟩

theorem single_plant (granted : Granted s f fs) (known : s.frames.isTaken g = true)
    (kept : s.Kept level table) (single : s.memory.Single level table) :
    (s.plant fs f g i).memory.Single level table := by
  have new : ∀ p, s.memory.follow level table p ≠ some f := by
    intro p leads
    have taken := kept p f leads
    rw [granted.free] at taken
    cases taken
  intro p p' c leads leads'
  obtain old | ⟨rfl, q, rfl, before⟩ := follow_plant granted known kept leads
  · obtain old' | ⟨rfl, -⟩ := follow_plant granted known kept leads'
    · exact single p p' c old old'
    · exact absurd old (new p)
  · obtain old' | ⟨-, q', rfl, before'⟩ := follow_plant granted known kept leads'
    · exact absurd old' (new p')
    · rw [single q q' g before before']

/-! ## Mapping the page -/

/-- From `s` to `s'` the frame `f` was planted in entry `i` of `g`, and other entries were opened
at most. -/
structure Plants (s : Store) (fs : Frames) (f g : Nat) (i : Fin 512) (s' : Store) : Prop where
  frames : s'.frames = fs
  alike : ∀ h j, ((s.plant fs f g i).memory.entry h j).Alike (s'.memory.entry h j)

/-- The entry that was filled in has kept its size bit. -/
theorem Plants.entry (plants : Plants s fs f g i s') (granted : Granted s f fs)
    (known : s.frames.isTaken g = true) : (s'.memory.entry g i).present = true ∧
      (s'.memory.entry g i).huge = (s.memory.entry g i).huge ∧
      ((s'.memory.entry g i).frame : Nat) = f := by
  obtain ⟨present, size, frame⟩ := plants.alike g i
  rw [granted.entry known] at present size frame
  exact ⟨present, size, (congrArg Fin.val frame).trans (Entry.frame_planted granted.small _)⟩

theorem Plants.single (plants : Plants s fs f g i s') (granted : Granted s f fs)
    (known : s.frames.isTaken g = true) (kept : s.Kept level table)
    (single : s.memory.Single level table) : s'.memory.Single level table := by
  have same : ∀ p, s'.memory.follow level table p =
      (s.plant fs f g i).memory.follow level table p :=
    Memory.follow_congr fun _ h _ _ _ j => Memory.link?_of_alike (plants.alike h j)
  intro p p' c
  rw [same p, same p']
  exact single_plant granted known kept single p p' c

theorem Plants.of_open {j : Fin 512} (plants : Plants (s.openEntry table j) fs f g i s') :
    Plants s fs f g i s' := by
  refine ⟨plants.frames, fun h k => Entry.Alike.trans ?_ (plants.alike h k)⟩
  have alike := s.alike_open table j h k
  rw [entry_plant, entry_plant]
  split
  · split
    · exact Entry.alike_of_eq rfl
    · exact ⟨rfl, alike.2.1, rfl⟩
  · split
    · exact Entry.alike_of_eq rfl
    · exact alike

/-- Mapping a page whose page table is there plants one frame and comes to nothing else. -/
theorem fill_last : ∀ {level : Nat} {s : Store} {table : Nat}, s.Leads a level table 1 g →
    (s.memory.entry g (a.part 1)).present = false → (s.frames.allocate 1).value = .ok (f, fs) →
      ∃ s', (fill level s table a 1).value = (.ok 0, s') ∧ Plants s fs f g (a.part 1) s' := by
  intro level
  induction level with
  | zero =>
    intro s table leads
    exact absurd leads.le (by decide)
  | succ level ih =>
    intro s table leads absent granted
    cases leads with
    | here taken =>
      refine ⟨s.plant fs f g (a.part 1), ?_, rfl, fun h j => Entry.alike_of_eq rfl⟩
      rw [fill_one, descend_planted absent granted]
      simp only [fill, Logged.value_pure, Nat.sub_self, fillSlots_done]
    | through taken present small rest =>
      have same := entry_open_absent present absent
      obtain ⟨s', filled, plants⟩ := ih (rest.later (stays_open s _ _))
        (by rw [same, absent]) granted
      refine ⟨s', ?_, plants.of_open⟩
      rw [fill_one, descend_table present (.inr small)]
      simp only [filled, fillSlots_done]

theorem map_last (leads : s.Leads (.ofNat address) 4 root 1 g)
    (absent : (s.memory.entry g ((Linear.ofNat address).part 1)).present = false)
    (granted : (s.frames.allocate 1).value = .ok (f, fs)) :
    ∃ s', (s.map root address 1).value = (.ok (), s') ∧
      Plants s fs f g ((Linear.ofNat address).part 1) s' := by
  obtain ⟨s', filled, plants⟩ := fill_last leads absent granted
  exact ⟨s', by rw [value_map, filled]; rfl, plants⟩

/-! ## Cleaning it up -/

/-- A page that was mapped in a table that was there is cleaned up again, unless the size bit was
left over in its entry. -/
theorem isTaken_unmap_map (bounded : s.Bounded) (kept : s.Kept 4 root)
    (single : s.memory.Single 4 root) (leads : s.Leads (.ofNat address) 4 root 1 g)
    (absent : (s.memory.entry g ((Linear.ofNat address).part 1)).present = false)
    (granted : (s.frames.allocate 1).value = .ok (f, fs)) :
    ((s.map root address 1).value.2.unmap root address).frames.isTaken f =
      (s.memory.entry g ((Linear.ofNat address).part 1)).huge := by
  have given := granted_of_allocate bounded granted
  have stays := stays_map s root address 1
  obtain ⟨q, path, last, before⟩ := path_of_leads leads
  obtain ⟨t, mapped, plants⟩ := map_last leads absent granted
  rw [mapped] at stays ⊢
  generalize (Linear.ofNat address).part 1 = i at path absent plants ⊢
  obtain ⟨present, size, frame⟩ := plants.entry given leads.taken
  have single := plants.single given leads.taken kept single
  have after : t.memory.follow 4 root q = some g := stays.follow kept before
  have taken : t.frames.isTaken f = true := by
    rw [plants.frames]
    exact (given.taken f).mpr (.inr rfl)
  have known : f < t.frames.capacity := stays.capacity ▸ Frames.lt_capacity_of_free given.free
  have page := isTaken_unmapSlot_page single after last present frame taken known path.symm
  exact page.trans size

end Store

end Nucleus
