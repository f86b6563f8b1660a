import Nucleus.Proofs.Paging.Planting

/-!
# Leftover bits

What is left over in an entry that is not present should count for nothing. All of it does but the
size bit: an entry that is filled in keeps that one, and passes for a large page from then on. Above
the page tables mapping is refused there, and in a page table the clean-up leaves the page behind.

* `answers_eq`: stores in which a tree tallies answer every sequence of requests alike.
* `fill_plants`: an entry that is filled in keeps its size bit.
* `fill_passes`: where no size bit is left over, a page can be mapped again and again.
* `told_apart`: where one is, the page cannot be mapped twice.
* `leftovers_ignored`: so trees with the same present entries are the same to every request if the
  same size bits are left over, and not otherwise.
-/

namespace Nucleus
open Platform

/-- Both entries are absent, or they are one. -/
def Entry.SamePresent (e e' : Entry) : Prop :=
  e'.present = e.present ∧ (e.present = true → e' = e)

/-- The size bits are the same. -/
def Entry.SameSize (e e' : Entry) : Prop := e'.huge = e.huge

theorem Entry.SamePresent.refl (e : Entry) : e.SamePresent e := ⟨rfl, fun _ => rfl⟩

theorem Entry.SameSize.refl (e : Entry) : e.SameSize e := rfl

theorem Entry.SamePresent.tallies {e e' : Entry} (same : e.SamePresent e') (size : e.SameSize e') :
    e.Tallies e' :=
  ⟨same.1, size, fun present => by rw [same.2 present]⟩

namespace Memory
variable {m m' : Memory} {level table g : Nat} {i : Fin 512}

theorem link?_of_samePresent (same : (m.entry table i).SamePresent (m'.entry table i)) :
    m'.link? level table i = m.link? level table i := by
  cases present : (m.entry table i).present with
  | false => rw [link?_of_absent present, link?_of_absent (same.1.trans present)]
  | true => exact link?_congr (same.2 present)

/-- The same present entries make the same tree. -/
theorem Agree.follow_eq (agree : m.Agree Entry.SamePresent m' level table) :
    ∀ p, m'.follow level table p = m.follow level table p :=
  follow_congr fun _ _ short leads _ i => link?_of_samePresent (agree.of_follow leads short i)

theorem Agree.single (agree : m.Agree Entry.SamePresent m' level table)
    (single : m.Single level table) : m'.Single level table := by
  intro p q f
  rw [agree.follow_eq, agree.follow_eq]
  exact single p q f

/-- One entry is rewritten by `u`. -/
theorem agree_update {R : Entry → Entry → Prop} {u : Entry → Entry} (same : ∀ e, R e e)
    (here : R (m.entry g i) (u (m.entry g i))) :
    ∀ level table, m.Agree R (m.update g i u) level table := by
  intro level
  induction level with
  | zero => exact fun _ => trivial
  | succ level ih =>
    refine fun table j => ⟨?_, fun f _ => ih f⟩
    rw [entry_update]
    split
    · next there =>
      obtain ⟨rfl, rfl⟩ := there
      exact here
    · exact same _

end Memory

namespace Store
variable {s s' : Store} {a : Linear} {level table root l g f : Nat} {frames fs : Frames}
  {m m' : Memory}

/-! ## Requests -/

/-- What can be asked of a tree. -/
inductive Request where
  | map (address pages : Nat)
  | fault (code : FaultCode) (address : Nat) (window : Span)
  | translate (address : Nat)
  | unmap (address : Nat)

inductive Answer where
  | mapped (r : Except PagingError Unit)
  | translated (address : Option Nat)
  | unmapped

def ask (s : Store) (root : Nat) : Request → Answer × Store
  | .map address pages =>
    let r := (s.map root address pages).value
    (.mapped r.1, r.2)
  | .fault code address window =>
    let r := (s.handleFault root code address window).value
    (.mapped r.1, r.2)
  | .translate address => (.translated (s.memory.translate root address), s)
  | .unmap address => (.unmapped, s.unmap root address)

/-- The answers to requests made one after the other, each with the allocator as it is then. -/
def answers (s : Store) (root : Nat) : List Request → List (Answer × Frames)
  | [] => []
  | q :: qs => ((s.ask root q).1, (s.ask root q).2.frames) :: (s.ask root q).2.answers root qs

theorem matches_ask (synced : Synced 4 root s s') (q : Request) :
    Matches s s' (s.ask root q) (s'.ask root q) := by
  cases q with
  | map address pages =>
    obtain ⟨answer, moves⟩ := matches_map synced address pages
    exact ⟨congrArg Answer.mapped answer, moves⟩
  | fault code address window =>
    obtain ⟨answer, moves⟩ := matches_handleFault synced code address window
    exact ⟨congrArg Answer.mapped answer, moves⟩
  | translate address =>
    exact ⟨congrArg Answer.translated (translate_eq synced address), .refl synced.frames⟩
  | unmap address => exact ⟨rfl, inStep_unmap synced address⟩

theorem answers_eq (synced : Synced 4 root s s') (qs : List Request) :
    s'.answers root qs = s.answers root qs := by
  induction qs generalizing s s' with
  | nil => rfl
  | cons q qs ih =>
    obtain ⟨answer, moves⟩ := matches_ask synced q
    rw [answers, answers, answer, moves.frames, ih (moves.synced synced)]

/-! ## An entry is filled in -/

/-- What is done for a page below an entry is only added to. -/
theorem stays_fill_below {s₁ : Store} (went : (s.descend (level + 1) table a).value = (.ok f, s₁)) :
    Stays (fill level s₁ f a 1).value.2 (fill (level + 1) s table a 1).value.2 := by
  rw [fill_one, went]
  cases filled : (fill level s₁ f a 1).value with
  | mk answer s₂ =>
    cases answer with
    | error e => simpa [filled] using Stays.refl s₂
    | ok left =>
      simpa [filled] using stays_fillSlots (stays_fill level) (level + 1) table _ s₂ _ left

/-- An entry that is filled in keeps its size bit. -/
theorem fill_plants (inner : l ≠ 0) : ∀ {level : Nat} {s : Store} {table : Nat}, s.Bounded →
    s.Leads a level table l g → (s.memory.entry g (a.part l)).present = false →
      (s.frames.allocate 1).value = .ok (f, fs) →
      ((fill level s table a 1).value.2.memory.entry g (a.part l)).present = true ∧
        ((fill level s table a 1).value.2.memory.entry g (a.part l)).huge =
          (s.memory.entry g (a.part l)).huge := by
  intro level
  induction level with
  | zero =>
    intro s table _ leads
    exact absurd (Nat.le_zero.mp leads.le) inner
  | succ level ih =>
    intro s table bounded leads absent granted
    cases leads with
    | here taken =>
      have given := granted_of_allocate bounded granted
      have went := descend_planted absent granted
      have kept : (s.plant fs f g (a.part (level + 1))).frames.isTaken g = true :=
        (given.taken g).mpr (.inl taken)
      have planted := given.entry taken (a.part (level + 1))
      have stays := (stays_fill level _ f a 1).trans (stays_fill_below went)
      have alike := stays.entry g (a.part (level + 1)) kept (by rw [planted]; rfl)
      rw [planted] at alike
      exact ⟨alike.1, alike.2.1⟩
    | through taken present small rest =>
      have same := entry_open_absent present absent
      have opened : (s.openEntry table (a.part (level + 1))).Bounded := bounded
      have below := ih opened (rest.later (stays_open s table _)) (by rw [same, absent]) granted
      have went := descend_table present (.inr small)
      have alike := (stays_fill_below went).entry g (a.part l)
        ((stays_fill level _ _ a 1).taken g rest.taken) below.1
      rw [same] at below
      exact ⟨alike.1.trans below.1, alike.2.1.trans below.2⟩

/-! ## A page is mapped again and again -/

/-- The entries that lead `a` on from a table at `level` name tables or nothing, and an absent one
has no size bit left over. -/
inductive Passable (s : Store) (a : Linear) : (level table : Nat) → Prop where
  | page (f : Nat) : Passable s a 0 f
  | vacant {level table : Nat} (taken : s.frames.isTaken table = true)
      (absent : (s.memory.entry table (a.part (level + 1))).present = false)
      (small : level = 0 ∨ (s.memory.entry table (a.part (level + 1))).huge = false) :
      Passable s a (level + 1) table
  | through {level table : Nat} (taken : s.frames.isTaken table = true)
      (present : (s.memory.entry table (a.part (level + 1))).present = true)
      (small : level = 0 ∨ (s.memory.entry table (a.part (level + 1))).huge = false)
      (rest : Passable s a level (s.memory.entry table (a.part (level + 1))).frame) :
      Passable s a (level + 1) table

theorem passable_of_leads (inner : l ≠ 0) (leads : s.Leads a level table l g)
    (absent : (s.memory.entry g (a.part l)).present = false)
    (small : (s.memory.entry g (a.part l)).huge = false) : s.Passable a level table := by
  induction leads with
  | @here level table taken =>
    obtain ⟨level, rfl⟩ := Nat.exists_eq_succ_of_ne_zero inner
    exact .vacant taken absent (.inr small)
  | through taken present plain _ ih =>
    exact .through taken present (.inr plain) (ih inner absent small)

theorem Passable.opened (passable : s.Passable a level table) (g : Nat) (i : Fin 512) :
    (s.openEntry g i).Passable a level table := by
  have alike := s.alike_open g i
  induction passable with
  | page f => exact .page f
  | @vacant level table taken absent small =>
    have same := alike table (a.part (level + 1))
    exact .vacant taken (same.1.trans absent) (small.imp_right same.2.1.trans)
  | @through level table taken present small _ ih =>
    have same := alike table (a.part (level + 1))
    rw [← same.2.2] at ih
    exact .through taken (same.1.trans present) (small.imp_right same.2.1.trans) ih

/-- Where nothing is in the way, mapping a page fails for want of a frame only, and leaves nothing
in the way. -/
theorem fill_passes : ∀ {level : Nat} {s : Store} {table : Nat}, s.Bounded →
    s.Passable a level table →
      ((fill level s table a 1).value.1 = .ok 0 ∨
        ∃ e, (fill level s table a 1).value.1 = .error (.alloc e)) ∧
      (fill level s table a 1).value.2.Passable a level table := by
  intro level
  induction level with
  | zero => exact fun _ _ => ⟨.inl rfl, .page _⟩
  | succ level ih =>
    intro s table bounded passable
    have onward {f : Nat} {s₁ : Store} (went : (s.descend (level + 1) table a).value = (.ok f, s₁))
        (taken : s₁.frames.isTaken table = true)
        (present : (s₁.memory.entry table (a.part (level + 1))).present = true)
        (small : level = 0 ∨ (s₁.memory.entry table (a.part (level + 1))).huge = false)
        (named : ((s₁.memory.entry table (a.part (level + 1))).frame : Nat) = f)
        (bounded : s₁.Bounded) (rest : s₁.Passable a level f) :
        ((fill (level + 1) s table a 1).value.1 = .ok 0 ∨
          ∃ e, (fill (level + 1) s table a 1).value.1 = .error (.alloc e)) ∧
        (fill (level + 1) s table a 1).value.2.Passable a (level + 1) table := by
      obtain ⟨answer, after⟩ := ih bounded rest
      have stays := stays_fill level s₁ f a 1
      rw [fill_one, went]
      cases filled : (fill level s₁ f a 1).value with
      | mk reply s₂ =>
        rw [filled] at answer after stays
        have alike := stays.entry table _ taken present
        have later : s₂.Passable a (level + 1) table := by
          rw [← named, ← alike.2.2] at after
          exact .through (stays.taken _ taken) (alike.1.trans present)
            (small.imp_right alike.2.1.trans) after
        cases answer with
        | inl done =>
          cases done
          simp only [filled, fillSlots_done]
          exact ⟨.inl trivial, later⟩
        | inr failed =>
          obtain ⟨e, failed⟩ := failed
          cases failed
          simp only [filled]
          exact ⟨.inr ⟨e, rfl⟩, later⟩
    cases passable with
    | through taken present small rest =>
      have alike := (stays_open s table (a.part (level + 1))).entry table _ taken present
      apply onward (descend_table present (small.imp_left fun last => Nat.le_of_eq (by rw [last])))
        taken (alike.1.trans present) (small.imp_right alike.2.1.trans)
        (congrArg Fin.val alike.2.2) bounded (rest.opened table _)
    | vacant taken absent small =>
      cases granted : (s.frames.allocate 1).value with
      | error e =>
        rw [fill_one, descend_refused absent granted]
        exact ⟨.inr ⟨e, rfl⟩, .vacant taken absent small⟩
      | ok r =>
        obtain ⟨f, frames⟩ := r
        have given := granted_of_allocate bounded granted
        have planted := given.entry taken (a.part (level + 1))
        have kept : (s.plant frames f table (a.part (level + 1))).Bounded := by
          unfold Bounded at bounded ⊢
          rw [← given.capacity] at bounded
          exact bounded
        apply onward (descend_planted absent granted) ((given.taken table).mpr (.inl taken))
          (by rw [planted]; rfl) (small.imp_right fun small => by rw [planted]; exact small)
          (by rw [planted, Entry.frame_planted given.small]) kept
        cases level with
        | zero => exact .page f
        | succ level =>
          have clear := given.clear taken (a.part (level + 2)) (a.part (level + 1))
          exact .vacant ((given.taken f).mpr (.inr rfl)) (by rw [clear]; rfl)
            (.inr (by rw [clear]; rfl))

theorem map_plants {address : Nat} (inner : l ≠ 0) (bounded : s.Bounded)
    (leads : s.Leads (.ofNat address) 4 root l g)
    (absent : (s.memory.entry g ((Linear.ofNat address).part l)).present = false)
    (granted : (s.frames.allocate 1).value = .ok (f, fs)) :
    ((s.map root address 1).value.2.memory.entry g ((Linear.ofNat address).part l)).present = true ∧
      ((s.map root address 1).value.2.memory.entry g ((Linear.ofNat address).part l)).huge =
        (s.memory.entry g ((Linear.ofNat address).part l)).huge := by
  rw [value_map]
  exact fill_plants inner bounded leads absent granted

theorem map_passes {address : Nat} (bounded : s.Bounded)
    (passable : s.Passable (.ofNat address) 4 root) :
    ((s.map root address 1).value.1 = .ok () ∨
      ∃ e, (s.map root address 1).value.1 = .error (.alloc e)) ∧
    (s.map root address 1).value.2.Passable (.ofNat address) 4 root := by
  obtain ⟨answer, after⟩ := fill_passes bounded passable
  rw [value_map]
  cases answer with
  | inl done => exact ⟨.inl (congrArg (outcome address) done), after⟩
  | inr failed =>
    obtain ⟨e, failed⟩ := failed
    exact ⟨.inr ⟨e, congrArg (outcome address) failed⟩, after⟩

/-! ## What is left over -/

/-- A size bit that is left over in a table is seen as soon as a page below it is mapped twice. -/
theorem told_apart {address : Nat} (inner : 1 < l) (bounded : s.Bounded) (bounded' : s'.Bounded)
    (leads : s.Leads (.ofNat address) 4 root l g) (leads' : s'.Leads (.ofNat address) 4 root l g)
    (absent : (s.memory.entry g ((Linear.ofNat address).part l)).present = false)
    (absent' : (s'.memory.entry g ((Linear.ofNat address).part l)).present = false)
    (small : (s.memory.entry g ((Linear.ofNat address).part l)).huge = false)
    (huge' : (s'.memory.entry g ((Linear.ofNat address).part l)).huge = true)
    (granted' : (s'.frames.allocate 1).value = .ok (f, fs)) :
    s'.answers root [.map address 1, .map address 1] ≠
      s.answers root [.map address 1, .map address 1] := by
  have passable := passable_of_leads (Nat.ne_zero_of_lt inner) leads absent small
  have free := (map_passes ((stays_map s root address 1).bounded bounded)
    (map_passes bounded passable).2).1
  have planted := map_plants (Nat.ne_zero_of_lt inner) bounded' leads' absent' granted'
  have refused := (map_of_large (leads'.later (stays_map s' root address 1)) planted.1
    (planted.2.trans huge') inner Nat.one_pos).1
  intro same
  simp only [answers, ask, List.cons.injEq, Prod.mk.injEq, Answer.mapped.injEq] at same
  have second := same.2.1.1
  rw [refused] at second
  rw [← second] at free
  obtain done | ⟨e, failed⟩ := free
  · cases done
  · cases failed

/-- A way through tables with the same present entries leads to the same table. -/
theorem Leads.of_agree (leads : Leads ⟨frames, m⟩ a level table (l + 1) g)
    (agree : m.Agree Entry.SamePresent m' level table) :
    Leads ⟨frames, m'⟩ a level table (l + 1) g ∧ m.Agree Entry.SamePresent m' (l + 1) g := by
  induction level generalizing table with
  | zero => cases leads.le
  | succ level ih =>
    cases leads with
    | here taken => exact ⟨.here taken, agree⟩
    | through taken present small rest =>
      have same := (agree.entry (a.part (level + 1))).2 present
      have linked : m.link? (level + 1) table (a.part (level + 1)) =
          some ((m.entry table (a.part (level + 1))).frame : Nat) :=
        Memory.link?_eq_some.mpr ⟨present, by rw [Entry.large, small]; rfl, rfl⟩
      obtain ⟨leads', end'⟩ := ih rest (agree.below linked)
      exact ⟨.through taken (same.symm ▸ present) (same.symm ▸ small) (same.symm ▸ leads'), end'⟩

theorem Kept.of_agree (kept : Kept ⟨frames, m⟩ level table)
    (agree : m.Agree Entry.SamePresent m' level table) : Kept ⟨frames, m'⟩ level table :=
  fun p f leads => kept p f ((agree.follow_eq p).symm.trans leads)

/-- **What is left over in absent entries.** Take one tree in two memories that have the same
present entries in all its tables, and one allocator. If every absent entry has the same size bit
left over in both, all sequences of requests get the same answers and leave the same frames free.
If some absent entry above the page tables that a page can be mapped through has not, they are told
apart as soon as that page is mapped twice. If one in a page table has not, and the tree has one
path to each of its frames, all of them taken, they are told apart as soon as that page is mapped
and cleaned up. -/
theorem leftovers_ignored (frames : Frames) (m m' : Memory) (root : Nat)
    (bounded : frames.capacity ≤ Entry.frameBound)
    (present : m.Agree Entry.SamePresent m' 4 root) :
    (m.Agree Entry.SameSize m' 4 root → ∀ qs : List Request,
      answers ⟨frames, m'⟩ root qs = answers ⟨frames, m⟩ root qs) ∧
    (∀ address l g, 1 < l → Leads ⟨frames, m⟩ (.ofNat address) 4 root l g →
      (m.entry g ((Linear.ofNat address).part l)).present = false →
      ¬ (m.entry g ((Linear.ofNat address).part l)).SameSize
        (m'.entry g ((Linear.ofNat address).part l)) →
      (∃ f fs, (frames.allocate 1).value = .ok (f, fs)) →
      answers ⟨frames, m'⟩ root [.map address 1, .map address 1] ≠
        answers ⟨frames, m⟩ root [.map address 1, .map address 1]) ∧
    (m.Single 4 root → Kept ⟨frames, m⟩ 4 root →
      ∀ address g, Leads ⟨frames, m⟩ (.ofNat address) 4 root 1 g →
      (m.entry g ((Linear.ofNat address).part 1)).present = false →
      ¬ (m.entry g ((Linear.ofNat address).part 1)).SameSize
        (m'.entry g ((Linear.ofNat address).part 1)) →
      (∃ f fs, (frames.allocate 1).value = .ok (f, fs)) →
      answers ⟨frames, m'⟩ root [.map address 1, .unmap address] ≠
        answers ⟨frames, m⟩ root [.map address 1, .unmap address]) := by
  have bounded (n : Memory) : Bounded ⟨frames, n⟩ := bounded
  refine ⟨?same, ?above, ?last⟩
  case same =>
    intro sizes qs
    have synced : Synced 4 root ⟨frames, m⟩ ⟨frames, m'⟩ :=
      ⟨rfl, bounded m, present.and (fun _ _ => Entry.SamePresent.tallies) sizes⟩
    exact answers_eq synced qs
  case above =>
    intro address l g inner leads absent differ granted
    obtain ⟨f, fs, granted⟩ := granted
    obtain ⟨l, rfl⟩ := Nat.exists_eq_succ_of_ne_zero (Nat.ne_zero_of_lt inner)
    obtain ⟨leads', same⟩ := leads.of_agree present
    have absent' := (same.entry ((Linear.ofNat address).part (l + 1))).1.trans absent
    cases size : (m.entry g ((Linear.ofNat address).part (l + 1))).huge with
    | false =>
      have size' : (m'.entry g ((Linear.ofNat address).part (l + 1))).huge = true := by
        simpa [Entry.SameSize, size] using differ
      exact told_apart inner (bounded _) (bounded _) leads leads' absent absent' size size' granted
    | true =>
      have size' : (m'.entry g ((Linear.ofNat address).part (l + 1))).huge = false := by
        simpa [Entry.SameSize, size] using differ
      have apart := told_apart inner (bounded _) (bounded _) leads' leads absent' absent size' size
        granted
      exact apart.symm
  case last =>
    intro single kept address g leads absent differ granted
    obtain ⟨f, fs, granted⟩ := granted
    obtain ⟨leads', same⟩ := leads.of_agree present
    have absent' := (same.entry ((Linear.ofNat address).part 1)).1.trans absent
    have left := isTaken_unmap_map (bounded m) kept single leads absent granted
    have left' := isTaken_unmap_map (bounded m') (kept.of_agree present) (present.single single)
      leads' absent' granted
    intro same
    simp only [answers, ask, List.cons.injEq, Prod.mk.injEq] at same
    rw [same.2.1.2, left] at left'
    exact differ left'.symm

theorem entry_update_zero (u : Entry → Entry) :
    (Memory.zero.update 0 0 u).entry 0 ((Linear.ofNat 0).part 4) = u .zero := by
  rw [Memory.entry_update, if_pos ⟨rfl, rfl⟩]
  exact congrArg u (Memory.entry_filled _ _ _)

/-- What else an absent entry holds makes no present entry. -/
theorem agree_leftover {i : Fin 512} {u : Entry → Entry} (absent : (m.entry g i).present = false)
    (kept : ∀ e, (u e).present = e.present) :
    m.Agree Entry.SamePresent (m.update g i u) 4 root := by
  refine Memory.agree_update Entry.SamePresent.refl ⟨kept _, fun present => ?_⟩ 4 root
  rw [absent] at present
  cases present

theorem allocate_above_root : (((Frames.full 1).release 1 20).allocate 1).value =
    .ok (1, ((Frames.full 1).release 1 20).mark 1 1) := by
  have root : ∀ g, g < 1 → ((Frames.full 1).release 1 20).isTaken g = true := by decide
  exact Frames.allocate_one (by decide) (by decide) fun g _ => root g

/-- A cleared top table at frame 0, and the frames from 1 to 20. -/
def emptyTree : Store := ⟨(Frames.full 1).release 1 20, .zero⟩

/-- The same tree once its second page was mapped, with the tables 1 to 3. -/
def secondPage : Store := (emptyTree.map 0 0x1000 1).value.2

theorem wellFormed_secondPage : secondPage.WellFormed 4 0 := by
  have clear : ∀ i, emptyTree.memory.entry 0 i = .zero := Memory.entry_filled _ _
  have well := (Owned.start clear).wellFormed (by decide)
  have bounded : emptyTree.Bounded := by
    unfold Bounded
    decide
  exact (grown_map well bounded 0x1000 1).wellFormed well

theorem leads_secondPage : secondPage.Leads (.ofNat 0) 4 0 1 3 := by
  have last : secondPage.Leads (.ofNat 0) 1 3 1 3 := .here (by decide +kernel)
  have middle : secondPage.Leads (.ofNat 0) 2 2 1 3 :=
    .onward (by decide +kernel) (by decide +kernel) (by decide +kernel) (by decide +kernel) last
  have upper : secondPage.Leads (.ofNat 0) 3 1 1 3 :=
    .onward (by decide +kernel) (by decide +kernel) (by decide +kernel) (by decide +kernel) middle
  exact .onward (by decide +kernel) (by decide +kernel) (by decide +kernel) (by decide +kernel)
    upper

theorem allocate_secondPage : ∃ f fs, (secondPage.frames.allocate 1).value = .ok (f, fs) := by
  have before : ∀ g, g < 5 → secondPage.frames.isTaken g = true := by decide +kernel
  exact ⟨5, _, Frames.allocate_one (by decide +kernel) (by decide +kernel) fun g _ => before g⟩

/-- A flag and a frame that are left over make no difference, whatever is asked. A size bit does, in
the top table and in a page table. -/
theorem leftovers_ignored_but_size :
    let frames := (Frames.full 1).release 1 20
    let bits := Memory.zero.update 0 0 fun e => { e with writable := true, frame := 7 }
    let size := Memory.zero.update 0 0 fun e => { e with huge := true }
    let last := secondPage.memory.update 3 0 fun e => { e with huge := true }
    (∀ qs, answers ⟨frames, bits⟩ 0 qs = answers ⟨frames, Memory.zero⟩ 0 qs) ∧
      answers ⟨frames, size⟩ 0 [.map 0 1, .map 0 1] ≠
        answers ⟨frames, Memory.zero⟩ 0 [.map 0 1, .map 0 1] ∧
      answers ⟨secondPage.frames, last⟩ 0 [.map 0 1, .unmap 0] ≠
        answers secondPage 0 [.map 0 1, .unmap 0] := by
  intro frames bits size last
  have bounded : frames.capacity ≤ Entry.frameBound := by decide
  have clear : Memory.zero.entry 0 ((Linear.ofNat 0).part 4) = .zero := Memory.entry_filled _ _ _
  have absent : (Memory.zero.entry 0 0).present = false := congrArg Entry.present clear
  refine ⟨?bits, ?size, ?last⟩
  case bits =>
    have present : Memory.zero.Agree Entry.SamePresent bits 4 0 := by
      apply agree_leftover absent
      exact fun _ => rfl
    have sizes : Memory.zero.Agree Entry.SameSize bits 4 0 :=
      Memory.agree_update Entry.SameSize.refl (.refl _) 4 0
    exact (leftovers_ignored frames Memory.zero bits 0 bounded present).1 sizes
  case size =>
    have differ : ¬ (Memory.zero.entry 0 ((Linear.ofNat 0).part 4)).SameSize
        (size.entry 0 ((Linear.ofNat 0).part 4)) := by
      rw [clear, entry_update_zero]
      nofun
    have present : Memory.zero.Agree Entry.SamePresent size 4 0 := by
      apply agree_leftover absent
      exact fun _ => rfl
    exact (leftovers_ignored frames Memory.zero size 0 bounded present).2.1 0 4 0 (by decide)
      (.here (by decide)) absent differ ⟨1, _, allocate_above_root⟩
  case last =>
    have bounded : secondPage.frames.capacity ≤ Entry.frameBound := by decide +kernel
    have absent : (secondPage.memory.entry 3 0).present = false := by decide +kernel
    have differ : ¬ (secondPage.memory.entry 3 0).SameSize (last.entry 3 0) := by
      have size : (secondPage.memory.entry 3 0).huge = false := by decide +kernel
      rw [Memory.entry_update, if_pos ⟨rfl, rfl⟩, Entry.SameSize, size]
      nofun
    have present : secondPage.memory.Agree Entry.SamePresent last 4 0 := by
      apply agree_leftover absent
      exact fun _ => rfl
    exact (leftovers_ignored secondPage.frames secondPage.memory last 0 bounded present).2.2
      wellFormed_secondPage.unique wellFormed_secondPage.taken 0 3 leads_secondPage absent differ
      allocate_secondPage

/-- A size bit alone is left over in the first slot of the one top table, and both have no present
entry. What the same two requests come to differs. -/
theorem leftover_size_matters :
    let frames := (Frames.full 1).release 1 20
    let size := Memory.zero.update 0 0 fun e => { e with huge := true }
    Memory.zero.Agree Entry.SamePresent size 4 0 ∧
      ∃ qs, answers ⟨frames, size⟩ 0 qs ≠ answers ⟨frames, Memory.zero⟩ 0 qs := by
  intro frames size
  have small : frames.capacity ≤ Entry.frameBound := by decide
  have bounded (m : Memory) : Bounded ⟨frames, m⟩ := small
  have taken : frames.isTaken 0 = true := by decide
  have top (m : Memory) : Leads ⟨frames, m⟩ (.ofNat 0) 4 0 4 0 := .here taken
  have clear : Memory.zero.entry 0 ((Linear.ofNat 0).part 4) = .zero := Memory.entry_filled _ _ _
  have absent : (Memory.zero.entry 0 0).present = false := congrArg Entry.present clear
  have bit : size.entry 0 ((Linear.ofNat 0).part 4) = { Entry.zero with huge := true } :=
    entry_update_zero _
  constructor
  · apply agree_leftover absent
    exact fun _ => rfl
  refine ⟨[.map 0 1, .map 0 1], ?_⟩
  exact told_apart (by decide) (bounded _) (bounded _) (top _) (top _) absent
    (congrArg Entry.present bit) (congrArg Entry.huge clear) (congrArg Entry.huge bit)
    allocate_above_root

end Store

end Nucleus
