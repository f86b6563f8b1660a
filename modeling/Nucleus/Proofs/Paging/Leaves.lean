import Nucleus.Proofs.Paging.Progress
import Nucleus.Proofs.Paging.Ranges

/-!
# Leaves

The present pages of a run are to be left as they are. They keep their frames, but mapping opens
every entry that it goes through, the entries of the pages too: a page that was there comes out
writable and open to user code whatever it was before. Large pages are never gone through.

* `Leaf`: an entry that maps a page, or a large one.
* `leaf_on_path`, `Opens`: what becomes of the leaves, page by page.
* `map_ok_iff`: how far a run can be mapped at all.
* `leaves_kept_iff`: so leaves are kept just if those that are come to were open before.
-/

namespace Nucleus
open Platform

namespace Entry

theorem opened_opened (e : Entry) : e.opened.opened = e.opened := rfl

theorem opened_eq_iff {e : Entry} : e.opened = e ↔ e.writable = true ∧ e.user = true := by
  obtain ⟨p, w, u, t, c, a, d, h, g, lo, f, hi, x⟩ := e
  simp [opened, eq_comm]

theorem Grows.present {e e' : Entry} (grows : Grows e e') (present : e.present = true) :
    e'.present = true := by
  cases grows with
  | same => exact present
  | opened => exact present
  | made f => rfl

end Entry

namespace Store
variable {s s' t u : Store} {a : Linear} {level table root address n k m g : Nat}
  {e : PagingError} {i : Fin 512} {p rest : List (Fin 512)} {A B : List (Fin 512) → Prop}
  {r : Ending Nat}

/-- Entry `i` of the table `g` that a path leads to is present, and maps a page or a large one. -/
structure Leaf (level table : Nat) (p : List (Fin 512)) (g : Nat) (i : Fin 512) (s : Store) :
    Prop where
  leads : s.memory.follow level table p = some g
  present : (s.memory.entry g i).present = true
  last : p.length + 1 = level ∨ (s.memory.entry g i).large (level - p.length) = true

theorem Leaf.short (leaf : Leaf level table p g i s) : p.length < level := by
  cases leaf.last with
  | inl last => omega
  | inr large =>
    simp only [Entry.large, Bool.and_eq_true, decide_eq_true_eq] at large
    omega

/-- A leaf below an entry does not notice that the entry is opened. -/
theorem Leaf.below {f : Nat} {j : Fin 512} (leaf : Leaf (level + 1) table (j :: p) g i s)
    (well : s.WellFormed (level + 1) table)
    (linked : s.memory.link? (level + 1) table j = some f) :
    Leaf level f p g i (s.openEntry table j) ∧
      (s.openEntry table j).memory.entry g i = s.memory.entry g i := by
  obtain ⟨leads, present, last⟩ := leaf
  rw [Memory.follow_link linked] at leads
  have same : (s.openEntry table j).memory.entry g i = s.memory.entry g i := by
    rw [entry_open, if_neg fun here => ne_of_follow_link well linked leads here.1]
  refine ⟨⟨(s.follow_open _ _ _ _ _).trans leads, ?_, ?_⟩, same⟩ <;> rw [same]
  · exact present
  · simpa using last

/-! ## One page -/

/-- The leaf on the path of a page is that of the page itself, which is opened, or the page cannot
be mapped. -/
theorem leaf_on_path : ∀ {level : Nat} {s : Store} {table : Nat} {p : List (Fin 512)},
    s.WellFormed level table → s.Bounded → Leaf level table p g i s →
      a.path level = p ++ i :: rest → match (fill level s table a 1).value with
        | (.ok _, t) => rest = [] ∧ t.memory.entry g i = (s.memory.entry g i).opened
        | (.error _, t) => t.memory.entry g i = s.memory.entry g i := by
  intro level
  induction level with
  | zero =>
    intro s table p _ _ _ along
    simp [Linear.path] at along
  | succ level ih =>
    intro s table p well bounded leaf along
    rw [fill_through well bounded]
    cases p with
    | nil =>
      obtain ⟨leads, present, last⟩ := leaf
      obtain rfl : table = g := by simpa using leads
      obtain ⟨rfl, rfl⟩ : a.part (level + 1) = i ∧ a.path level = rest := by
        simpa [Linear.path_succ] using along
      cases last with
      | inl page =>
        obtain rfl : level = 0 := by simpa using page.symm
        have opened := s.entry_open table (a.part 1) table (a.part 1)
        rw [if_pos ⟨rfl, rfl⟩] at opened
        rw [descend_table present (.inl (Nat.le_refl 1))]
        exact ⟨rfl, opened⟩
      | inr large =>
        simp only [Entry.large, Bool.and_eq_true, decide_eq_true_eq, List.length_nil] at large
        rw [descend_large present large.1.1 (by omega)]
        rfl
    | cons j p =>
      obtain ⟨rfl, through⟩ : a.part (level + 1) = j ∧ a.path level = p ++ i :: rest := by
        simpa [Linear.path_succ] using along
      obtain ⟨f, linked, -⟩ := Memory.follow_cons_eq_some.mp leaf.leads
      obtain ⟨there, -, rfl⟩ := Memory.link?_eq_some.mp linked
      by_cases small : level + 1 ≤ 1 ∨ (s.memory.entry table (a.part (level + 1))).huge = false
      · have grown := grown_open well there
        have linked' := (s.link?_open table (a.part (level + 1)) (level + 1) table _).trans linked
        obtain ⟨leaf', same⟩ := leaf.below well linked
        have below := ih ((grown.wellFormed well).below linked') (grown.bounded bounded) leaf' through
        rw [same] at below
        rw [descend_table there small]
        exact below
      · -- the top table can have an entry that leads on and is refused all the same
        obtain ⟨inner, huge⟩ := not_or.mp small
        rw [Bool.not_eq_false] at huge
        rw [descend_large there huge (Nat.lt_of_not_le inner)]
        rfl

/-- From `s` to `s'` the leaves at the ends of some paths were opened, and no others changed. -/
structure Opens (A : List (Fin 512) → Prop) (root : Nat) (s s' : Store) : Prop where
  opened : ∀ p g i, Leaf 4 root p g i s → A (p ++ [i]) →
    s'.memory.entry g i = (s.memory.entry g i).opened
  kept : ∀ p g i, Leaf 4 root p g i s → ¬A (p ++ [i]) → s'.memory.entry g i = s.memory.entry g i

theorem Opens.congr (opens : Opens A root s t) (same : Coincides t u) : Opens A root s u where
  opened p g i leaf along := (same.entry g i).trans (opens.opened p g i leaf along)
  kept p g i leaf aside := (same.entry g i).trans (opens.kept p g i leaf aside)

theorem Opens.mono (opens : Opens A root s t) (same : ∀ p, B p ↔ A p) : Opens B root s t where
  opened p g i leaf along := opens.opened p g i leaf ((same _).mp along)
  kept p g i leaf aside := opens.kept p g i leaf (mt (same _).mpr aside)

theorem Opens.refl (none : ∀ p, ¬A p) (root : Nat) (s : Store) : Opens A root s s where
  opened p _ i _ along := absurd along (none (p ++ [i]))
  kept _ _ _ _ _ := rfl

/-- A leaf is one still when the tree has grown. -/
theorem Leaf.later (leaf : Leaf 4 root p g i s) (grown : Grown 4 root s t) :
    Leaf 4 root p g i t := by
  have grows := grown.old p g leaf.leads leaf.short i
  obtain ⟨leads, present, last⟩ := leaf
  constructor
  case leads => exact grown.keeps p g leads
  case present => exact grows.present present
  case last =>
    rw [Entry.large, grows.huge]
    exact last

theorem Opens.trans (first : Opens A root s t) (second : Opens B root t u)
    (grown : Grown 4 root s t) : Opens (fun p => A p ∨ B p) root s u := by
  constructor
  case opened =>
    intro p g i leaf along
    have leaf' := leaf.later grown
    by_cases before : A (p ++ [i])
    · have there := first.opened p g i leaf before
      by_cases again : B (p ++ [i])
      · rw [second.opened p g i leaf' again, there, Entry.opened_opened]
      · rw [second.kept p g i leaf' again, there]
    · rw [second.opened p g i leaf' (along.resolve_left before), first.kept p g i leaf before]
  case kept =>
    intro p g i leaf aside
    obtain ⟨before, after⟩ := not_or.mp aside
    rw [second.kept p g i (leaf.later grown) after, first.kept p g i leaf before]

/-- Mapping one page opens its leaf if there is one. A page that cannot be mapped opens none. -/
theorem opens_one (well : s.WellFormed 4 root) (bounded : s.Bounded) (a : Linear) :
    match (fill 4 s root a 1).value with
      | (.ok _, t) => Opens (· = a.path 4) root s t
      | (.error _, t) => Opens (fun _ => False) root s t := by
  have traced := traced_fill_one 4 s root a well bounded
  -- a leaf that the path does not go through is not written to
  have aside : ∀ p g i, Leaf 4 root p g i s → ¬p ++ [i] <+: a.path 4 →
      (fill 4 s root a 1).value.2.memory.entry g i = s.memory.entry g i := by
    intro p g i leaf off
    obtain same | ⟨q, leads, _, rfl, through⟩ | ⟨free, -⟩ := traced g i
    · exact same
    · obtain rfl := well.unique p q g leaf.leads leads
      exact absurd through off
    · exact absurd free (well.not_free leaf.leads)
  have along : ∀ p g i, Leaf 4 root p g i s → p ++ [i] <+: a.path 4 →
      match (fill 4 s root a 1).value with
        | (.ok _, t) => p ++ [i] = a.path 4 ∧
            t.memory.entry g i = (s.memory.entry g i).opened
        | (.error _, t) => t.memory.entry g i = s.memory.entry g i := by
    rintro p g i leaf ⟨rest, through⟩
    have path : a.path 4 = p ++ i :: rest := by simp [← through]
    have leafed := leaf_on_path well bounded leaf path
    cases filled : (fill 4 s root a 1).value with
    | mk answer t =>
      rw [filled] at leafed
      cases answer with
      | error e => exact leafed
      | ok left => exact ⟨by simp [path, leafed.1], leafed.2⟩
  cases filled : (fill 4 s root a 1).value with
  | mk answer t =>
    rw [filled] at aside along
    cases answer with
    | error e =>
      constructor
      case opened => exact fun _ _ _ _ none => none.elim
      case kept =>
        intro p g i leaf _
        by_cases on : p ++ [i] <+: a.path 4
        · exact along p g i leaf on
        · exact aside p g i leaf on
    | ok left =>
      constructor
      case opened =>
        intro p g i leaf page
        exact (along p g i leaf (page ▸ List.prefix_rfl)).2
      case kept =>
        intro p g i leaf other
        apply aside p g i leaf
        intro on
        exact other (along p g i leaf on).1

/-! ## Runs -/

theorem runPath_iff : RunPath address k p ↔
    ∃ j, j < k ∧ p = (Linear.ofNat (address + j * frameBytes)).path 4 := by
  constructor
  · rintro ⟨b, ⟨j, small, page⟩, rfl⟩
    exact ⟨j, small, path_eq_iff.mpr page⟩
  · rintro ⟨j, small, rfl⟩
    exact ⟨_, ⟨j, small, rfl⟩, rfl⟩

theorem runPath_succ : RunPath address (k + 1) p ↔
    RunPath address k p ∨ p = (Linear.ofNat (address + k * frameBytes)).path 4 := by
  rw [runPath_iff, runPath_iff]
  constructor
  · rintro ⟨j, small, path⟩
    by_cases last : j = k
    · exact .inr (last ▸ path)
    · exact .inl ⟨j, by omega, path⟩
  · rintro (⟨j, small, path⟩ | path)
    · exact ⟨j, by omega, path⟩
    · exact ⟨k, by omega, path⟩

theorem opens_fill (well : s.WellFormed 4 root) (bounded : s.Bounded) : ∀ {k : Nat} {t : Store},
    pageOf address + k ≤ pageCount → (fill 4 s root (.ofNat address) k).value = (.ok 0, t) →
      Opens (RunPath address k) root s t := by
  intro k
  induction k with
  | zero =>
    intro t _ filled
    rw [fill_zero] at filled
    cases filled
    exact .refl (fun p ⟨_, ⟨j, small, _⟩, _⟩ => Nat.not_lt_zero j small) root s
  | succ k ih =>
    intro t room filled
    have here : pageOf address + k < pageCount := by omega
    obtain ⟨u, before, last⟩ := part_of_filled well bounded room filled
    have grown := grown_of_fill well bounded before
    have opens := opens_one (grown.wellFormed well) (grown.bounded bounded)
      (.ofNat (address + k * frameBytes))
    rw [rest_of_room here] at last
    cases page : (fill 4 u root (.ofNat (address + k * frameBytes)) 1).value with
    | mk answer t' =>
      rw [page] at last opens
      cases last.answer
      have both := ((ih (by omega) before).trans opens grown).congr last.store.symm
      exact both.mono fun p => runPath_succ

/-- If a run ends after `k` pages, these are the pages of it that can be mapped. -/
theorem map_ok_iff (well : s.WellFormed 4 root) (bounded : s.Bounded)
    (within : pageOf address + k ≤ pageCount)
    (filled : (fill 4 s root (.ofNat address) k).value = (.ok 0, t))
    (ends : Ends root address n k t r) (small : m ≤ n) :
    (s.map root address m).value.1 = .ok () ↔ m ≤ k := by
  constructor
  · intro told
    by_cases past : m ≤ k
    · exact past
    exfalso
    -- what ended the run ends this part of it too
    obtain ⟨d, rfl⟩ : ∃ d, m = k + (d + 1) := ⟨m - k - 1, by omega⟩
    have split := fill_add k s address (d + 1) well bounded within
    rw [filled] at split
    rw [value_map] at told
    cases ends with
    | done all _ => omega
    | past more full _ =>
      have answer := split.answer
      simp only [andThen, rest_of_end full] at answer
      rw [← answer] at told
      cases told
    | stuck more room failed _ =>
      have grown := grown_of_fill well bounded filled
      have stopped := fill_error (grown.wellFormed well) (grown.bounded bounded) failed d
      have answer := split.answer
      simp only [andThen, rest_of_room room] at answer
      rw [← answer, ← stopped.answer] at told
      cases told
  · intro le
    obtain ⟨d, rfl⟩ : ∃ d, k = m + d := ⟨k - m, by omega⟩
    obtain ⟨u, before, -⟩ := part_of_filled well bounded within filled
    rw [value_map_of_room well bounded (by omega), before]
    rfl

/-- The paths to the pages of a run that are come to: all up to there can be mapped. -/
def Reached (s : Store) (root address n : Nat) (p : List (Fin 512)) : Prop :=
  ∃ j, j < n ∧ (s.map root address (j + 1)).value.1 = .ok () ∧
    p = (Linear.ofNat (address + j * frameBytes)).path 4

theorem opens_map (well : s.WellFormed 4 root) (bounded : s.Bounded) (address n : Nat) :
    Opens (s.Reached root address n) root s (s.map root address n).value.2 := by
  obtain ⟨k, t, within, filled, ends⟩ := exists_end well bounded address n
  have first := opens_fill well bounded within filled
  have reached : ∀ p, s.Reached root address n p ↔ RunPath address k p := by
    have told {j : Nat} (small : j + 1 ≤ n) := map_ok_iff well bounded within filled ends small
    intro p
    rw [runPath_iff]
    constructor
    · rintro ⟨j, small, mapped, path⟩
      exact ⟨j, (told small).mp mapped, path⟩
    · rintro ⟨j, small, path⟩
      have lower : j < n := by cases ends <;> omega
      exact ⟨j, lower, (told lower).mpr small, path⟩
  rw [value_map]
  apply Opens.mono _ reached
  cases ends with
  | done _ same => exact first.congr same.store
  | past _ _ same => exact first.congr same.store
  | stuck _ room failed same =>
    have grown := grown_of_fill well bounded filled
    have page := opens_one (grown.wellFormed well) (grown.bounded bounded)
      (.ofNat (address + k * frameBytes))
    rw [failed] at page
    exact ((first.trans page grown).mono fun p => (or_iff_left id).symm).congr same.store

/-- **Leaves are kept just if they are open.** Whatever comes of mapping a run in a well-formed
tree, a leaf that was present changes only if it is that of a page of the run, and the run can be
mapped up to there: then it is made writable and open to user code, and all else of it stays. Large
pages stay as they are. So a call leaves all present leaves as they are if, and only if, those of
the pages that it comes to were writable and open to user code before. -/
theorem leaves_kept_iff (s : Store) (root address n : Nat) (well : s.WellFormed 4 root)
    (bounded : s.Bounded) :
    let s' := (s.map root address n).value.2
    Opens (s.Reached root address n) root s s' ∧
      (∀ p g i, Leaf 4 root p g i s → (s.memory.entry g i).large (4 - p.length) = true →
        s'.memory.entry g i = s.memory.entry g i) ∧
      ((∀ p g i, Leaf 4 root p g i s → s'.memory.entry g i = s.memory.entry g i) ↔
        ∀ p g i, Leaf 4 root p g i s → s.Reached root address n (p ++ [i]) →
          (s.memory.entry g i).writable = true ∧ (s.memory.entry g i).user = true) := by
  intro s'
  have opens := opens_map well bounded address n
  apply And.intro opens
  constructor
  · intro p g i leaf large
    apply opens.kept p g i leaf
    rintro ⟨j, -, -, path⟩
    have full := congrArg List.length path
    simp only [Linear.length_path, List.length_append, List.length_cons, List.length_nil] at full
    simp only [Entry.large, Bool.and_eq_true, decide_eq_true_eq] at large
    omega
  · constructor
    · intro kept p g i leaf reached
      rw [← Entry.opened_eq_iff, ← opens.opened p g i leaf reached]
      exact kept p g i leaf
    · intro already p g i leaf
      by_cases reached : s.Reached root address n (p ++ [i])
      · rw [← Entry.opened_eq_iff.mpr (already p g i leaf reached)]
        exact opens.opened p g i leaf reached
      · exact opens.kept p g i leaf reached

/-! ### Pages that are not open -/

/-- No path notices that an entry is rewritten, as long as it leads where it did. -/
theorem follow_rewrite {m : Memory} {e : Entry} (alike : (m.entry g i).Alike e) :
    ∀ p, (m.put g i e).follow level table p = m.follow level table p := by
  apply Memory.follow_congr
  intro _ h _ _ l j
  unfold Memory.link?
  rw [Memory.entry_put]
  split
  · next here =>
    obtain ⟨rfl, rfl⟩ := here
    simp [Entry.large, alike.1, alike.2.1, alike.2.2]
  · rfl

theorem WellFormed.rewrite {e : Entry} (well : s.WellFormed level table)
    (alike : (s.memory.entry g i).Alike e) (present : (s.memory.entry g i).present = true) :
    WellFormed ⟨s.frames, s.memory.put g i e⟩ level table := by
  have follow : ∀ p, (s.memory.put g i e).follow level table p = s.memory.follow level table p :=
    follow_rewrite alike
  constructor
  case unique =>
    intro p q f hp hq
    rw [follow] at hp hq
    exact well.unique p q f hp hq
  case taken => exact fun p f leads => well.taken p f ((follow p).symm.trans leads)
  case absent =>
    intro p h leads short j absent
    rw [Memory.entry_put] at absent ⊢
    split at absent
    · rw [alike.1, present] at absent
      cases absent
    · next other =>
      rw [if_neg other]
      exact well.absent p h ((follow p).symm.trans leads) short j absent

/-- So a page of a tree that was mapped can be given other permissions. -/
theorem leaf_of_paged {s₀ : Store} {e : Entry} (top : s₀.frames.isTaken root = true)
    (bounded : s₀.Bounded) (clear : ∀ i, s₀.memory.entry root i = .zero) (paged : Paged root s₀ s)
    (leads : s.memory.follow 4 root p = some g) (last : p.length = 3)
    (alike : (s.memory.entry g i).Alike e) (present : (s.memory.entry g i).present = true) :
    WellFormed ⟨s.frames, s.memory.put g i e⟩ 4 root ∧ Bounded ⟨s.frames, s.memory.put g i e⟩ ∧
      Leaf 4 root p g i ⟨s.frames, s.memory.put g i e⟩ ∧ (s.memory.put g i e).entry g i = e := by
  have owned := owned_paged top bounded clear paged
  have same : s.Bounded := by
    unfold Bounded
    rw [owned.capacity]
    exact bounded
  have entry : (s.memory.put g i e).entry g i = e := by simp [Memory.entry_put]
  have there : ((s.memory.put g i e).entry g i).present = true := by rw [entry, alike.1, present]
  exact ⟨(owned.wellFormed top).rewrite alike present, same,
    ⟨(follow_rewrite alike p).trans leads, there, .inl (congrArg Nat.succ last)⟩, entry⟩

/-- One page, made read only for the kernel and not to be executed. A run that starts behind the
page leaves it as it is, and a run that starts with it opens it. -/
theorem leaves_kept_behind :
    let s₀ : Store := ⟨((Frames.full 1).release 1 63).mark 1 1,
      (Memory.filled (.ofNat 0x2003)).clear 1⟩
    let s₁ := (s₀.map 1 0xffff800000000000 1).value.2
    let s : Store := ⟨s₁.frames, s₁.memory.put 4 0 (.ofNat 0x8000000000005001)⟩
    s.WellFormed 4 1 ∧ s.Bounded ∧ Leaf 4 1 [256, 0, 0] 4 0 s ∧
      (s.map 1 0xffff800000001000 1).value.2.memory.entry 4 0 = .ofNat 0x8000000000005001 ∧
      (s.map 1 0xffff800000000000 2).value.2.memory.entry 4 0 = .ofNat 0x8000000000005007 := by
  intro s₀ s₁ s
  have clear : ∀ i, s₀.memory.entry 1 i = .zero := fun i => by simp [s₀, Memory.entry_clear]
  have small : s₀.Bounded := by
    unfold Bounded
    decide
  have page : s₁.memory.follow 4 1 [256, 0, 0] = some 4 ∧ s₁.memory.entry 4 0 = .ofNat 0x5007 := by
    simp only [s₁, s₀]
    decide +kernel
  have alike : (s₁.memory.entry 4 0).Alike (.ofNat 0x8000000000005001) := by
    rw [page.2]
    unfold Entry.Alike
    decide
  have present : (s₁.memory.entry 4 0).present = true := by rw [page.2]; rfl
  obtain ⟨well, bounded, leaf, entry⟩ := leaf_of_paged (by decide) small clear
    (.map 0xffff800000000000 1 .start) page.1 rfl alike present
  have mapped : (s.map 1 0xffff800000000000 (0 + 1)).value.1 = .ok () := by
    simp only [s, s₁, s₀]
    decide +kernel
  have reached : s.Reached 1 0xffff800000000000 2 ([256, 0, 0] ++ [0]) :=
    ⟨0, by decide, mapped, by decide⟩
  have aside : ¬s.Reached 1 0xffff800000001000 1 ([256, 0, 0] ++ [0]) := by
    rintro ⟨j, small, -, path⟩
    obtain rfl : j = 0 := by omega
    revert path
    decide
  obtain ⟨behind, -, -⟩ := leaves_kept_iff s 1 0xffff800000001000 1 well bounded
  obtain ⟨within, -, -⟩ := leaves_kept_iff s 1 0xffff800000000000 2 well bounded
  have kept := (behind.kept _ _ _ leaf aside).trans entry
  have opened := (within.opened _ _ _ leaf reached).trans (congrArg Entry.opened entry)
  exact ⟨well, bounded, leaf, kept, opened.trans (by decide)⟩

/-- The page of a run that is there already, read only for the kernel and not to be executed: the
call succeeds, and user code can write to the page then. -/
theorem read_only_page_opened :
    let s₀ : Store := ⟨((Frames.full 1).release 1 63).mark 1 1,
      (Memory.filled (.ofNat 0x2003)).clear 1⟩
    let s₁ := (s₀.map 1 0xffff800000000000 1).value.2
    let s : Store := ⟨s₁.frames, s₁.memory.put 4 0 (.ofNat 0x8000000000005001)⟩
    let r := (s.map 1 0xffff800000000000 1).value
    s.WellFormed 4 1 ∧ s.Bounded ∧ Leaf 4 1 [256, 0, 0] 4 0 s ∧ r.1 = .ok () ∧
      s.memory.entry 4 0 = .ofNat 0x8000000000005001 ∧
      r.2.memory.entry 4 0 = .ofNat 0x8000000000005007 ∧
      r.2.memory.entry 4 0 ≠ s.memory.entry 4 0 := by
  intro s₀ s₁ s r
  have clear : ∀ i, s₀.memory.entry 1 i = .zero := fun i => by simp [s₀, Memory.entry_clear]
  have small : s₀.Bounded := by
    unfold Bounded
    decide
  have page : s₁.memory.follow 4 1 [256, 0, 0] = some 4 ∧ s₁.memory.entry 4 0 = .ofNat 0x5007 := by
    simp only [s₁, s₀]
    decide +kernel
  have alike : (s₁.memory.entry 4 0).Alike (.ofNat 0x8000000000005001) := by
    rw [page.2]
    unfold Entry.Alike
    decide
  have present : (s₁.memory.entry 4 0).present = true := by rw [page.2]; rfl
  obtain ⟨well, bounded, leaf, before⟩ := leaf_of_paged (by decide) small clear
    (.map 0xffff800000000000 1 .start) page.1 rfl alike present
  have told : r.1 = .ok () := by
    simp only [r, s, s₁, s₀]
    decide +kernel
  have after : r.2.memory.entry 4 0 = .ofNat 0x8000000000005007 := by
    simp only [r, s, s₁, s₀]
    decide +kernel
  have differs : r.2.memory.entry 4 0 ≠ s.memory.entry 4 0 := by
    rw [after, before]
    decide
  exact ⟨well, bounded, leaf, told, before, after, differs⟩

end Store

end Nucleus
