import Nucleus.Proofs.Paging.Ownership
import Nucleus.Proofs.Paging.Pages

/-!
# Runs of pages

A run that is mapped to its end backs every page of it and no other. Pages that were there keep
their frames, the others get cleared ones of their own, and besides these frames and the new tables
only entries on the way to a page of the run are written.

* `Traced`: what may be written on the way along some paths.
* `traced_fill_one`: mapping one page writes along its path.
* `InRun`, `RunBacked`: the addresses of a run, and what has become of them.
* `runBacked_fill`: page by page, every run that is mapped is backed.
* `run_mapped_exactly`: what this means for whoever looks.
-/

namespace Nucleus
open Platform

namespace Store
variable {s s' t t' : Store} {a : Linear} {level table f root address n b : Nat} {i : Fin 512}
  {A B : List (Fin 512) → Prop}

/-! ## Along a path -/

/-- From `s` to `s'` an entry changed only if one of the paths goes through it, or if its frame was
free and is taken now. -/
def Traced (A : List (Fin 512) → Prop) (level table : Nat) (s s' : Store) : Prop :=
  ∀ g i, s'.memory.entry g i = s.memory.entry g i ∨
    (∃ q, s.memory.follow level table q = some g ∧ ∃ p, A p ∧ q ++ [i] <+: p) ∨
    s.frames.isTaken g = false ∧ s'.frames.isTaken g = true

theorem Traced.refl (s : Store) : Traced A level table s s := fun _ _ => .inl rfl

theorem Traced.mono (traced : Traced A level table s s') (more : ∀ p, A p → B p) :
    Traced B level table s s' := by
  intro g i
  refine (traced g i).imp_right (Or.imp_left ?_)
  rintro ⟨q, leads, p, along, through⟩
  exact ⟨q, leads, p, more p along, through⟩

/-- A table that the second walk goes through was there before the first, or is new. -/
theorem Traced.trans (first : Traced A level table s t) (second : Traced A level table t t')
    (grown : Grown level table s t) (later : Grown level table t t') :
    Traced A level table s t' := by
  intro g i
  rcases second g i with same | ⟨q, leads, along⟩ | ⟨free, taken⟩
  · rcases first g i with before | along | ⟨free, taken⟩
    · exact .inl (same.trans before)
    · exact .inr (.inl along)
    · exact .inr (.inr ⟨free, (later.taken g).mpr (.inl taken)⟩)
  · rcases grown.fresh q g leads with before | free
    · exact .inr (.inl ⟨q, before, along⟩)
    · exact .inr (.inr ⟨free, (later.taken g).mpr (.inr ⟨q, later.keeps q g leads⟩)⟩)
  · exact .inr (.inr ⟨grown.mono free, taken⟩)

/-- What is written below an entry along the rest of a path is written along the path. -/
theorem Traced.below (traced : Traced (· = a.path level) level f s t)
    (linked : s.memory.link? (level + 1) table (a.part (level + 1)) = some f) :
    Traced (· = a.path (level + 1)) (level + 1) table s t := by
  intro g j
  refine (traced g j).imp_right (Or.imp_left ?_)
  rintro ⟨q, leads, _, rfl, through⟩
  refine ⟨a.part (level + 1) :: q, (Memory.follow_link linked).trans leads, _, rfl, ?_⟩
  exact List.cons_prefix_cons.mpr ⟨rfl, through⟩

theorem traced_descend (well : s.WellFormed (level + 1) table) (bounded : s.Bounded) (a : Linear) :
    Traced (· = a.path (level + 1)) (level + 1) table s (s.descend (level + 1) table a).value.2 := by
  have here : ∃ q, s.memory.follow (level + 1) table q = some table ∧
      ∃ p, p = a.path (level + 1) ∧ q ++ [a.part (level + 1)] <+: p :=
    ⟨[], Memory.follow_nil, _, rfl, List.cons_prefix_cons.mpr ⟨rfl, List.nil_prefix⟩⟩
  apply descend_cases (P := fun r => Traced (· = a.path (level + 1)) (level + 1) table s r.2)
  case huge => exact .refl s
  case refused => exact fun _ => .refl s
  case present =>
    intro _ _ g j
    rw [entry_open]
    split
    · next same =>
      obtain ⟨rfl, rfl⟩ := same
      exact .inr (.inl here)
    · exact .inl rfl
  case made =>
    intro absent f frames granted g j
    have made := made_of_allocate well bounded absent granted
    rw [made.entry]
    split
    · next same =>
      obtain ⟨rfl, rfl⟩ := same
      exact .inr (.inl here)
    · split
      · next same =>
        subst same
        exact .inr (.inr ⟨made.free, (made.taken_iff f).mpr (.inr rfl)⟩)
      · exact .inl rfl

/-- Mapping one page writes along its path, however it ends. -/
theorem traced_fill_one : ∀ (level : Nat) (s : Store) (table : Nat) (a : Linear),
    s.WellFormed level table → s.Bounded →
      Traced (· = a.path level) level table s (fill level s table a 1).value.2 := by
  intro level
  induction level with
  | zero => exact fun s _ _ _ _ => .refl s
  | succ level ih =>
    intro s table a well bounded
    have first := traced_descend well bounded a
    obtain ⟨grown, linked⟩ := grown_descend well bounded a
    rw [value_fill]
    rcases went : (s.descend (level + 1) table a).value with ⟨e | f, s₁⟩ <;>
      rw [went] at first grown linked
    · exact first
    · have well₁ := grown.wellFormed well
      have bounded₁ := grown.bounded bounded
      have inner := well₁.below (linked f rfl)
      have later := grown_below well₁ (linked f rfl) (grown_fill level s₁ f a 1 inner bounded₁)
      have both := first.trans ((ih s₁ f a inner bounded₁).below (linked f rfl)) grown later
      rcases filled : (fill level s₁ f a 1).value with ⟨e | left, s₂⟩ <;> rw [filled] at both
      · simpa [andThen, filled] using both
      · obtain rfl := left_of_one inner bounded₁ filled
        simpa [andThen, filled, fillSlots_done] using both

/-! ## Runs -/

/-- `b` lies in one of the `n` pages from `address` on. -/
def InRun (address n b : Nat) : Prop := ∃ k, k < n ∧ pageOf b = pageOf (address + k * frameBytes)

theorem inRun_succ : InRun address (n + 1) b ↔
    pageOf b = pageOf address ∨ InRun (address + frameBytes) n b := by
  constructor
  · rintro ⟨_ | k, small, same⟩
    · exact .inl (by simpa using same)
    · refine .inr ⟨k, Nat.lt_of_succ_lt_succ small, ?_⟩
      rw [same, Nat.succ_mul, Nat.add_comm (k * _), Nat.add_assoc]
  · rintro (same | ⟨k, small, same⟩)
    · exact ⟨0, Nat.zero_lt_succ n, by simpa using same⟩
    · refine ⟨k + 1, Nat.succ_lt_succ small, ?_⟩
      rw [same, Nat.succ_mul, Nat.add_comm (k * _), Nat.add_assoc]

/-- The paths to the pages of a run. -/
def RunPath (address n : Nat) (p : List (Fin 512)) : Prop :=
  ∃ b, InRun address n b ∧ p = (Linear.ofNat b).path 4

/-- From `s` to `s'` the pages of a run came to be backed. -/
structure RunBacked (root address n : Nat) (s s' : Store) : Prop where
  beside : ∀ b, ¬InRun address n b → s'.memory.translate root b = s.memory.translate root b
  backed : ∀ b, InRun address n b →
    (∃ f, s'.memory.follow 4 root ((Linear.ofNat b).path 4) = some f) ∧
      (s'.memory.translate root b = s.memory.translate root b ∨
        s.memory.translate root b = none)
  traced : Traced (RunPath address n) 4 root s s'

/-- Whether in the run or not. -/
theorem RunBacked.kept (run : RunBacked root address n s s') (b : Nat) :
    s'.memory.translate root b = s.memory.translate root b ∨ s.memory.translate root b = none := by
  by_cases inside : InRun address n b
  · exact (run.backed b inside).2
  · exact .inl (run.beside b inside)

theorem RunBacked.empty (s : Store) : RunBacked root address 0 s s where
  beside _ _ := rfl
  backed b := by
    rintro ⟨k, small, -⟩
    exact absurd small (Nat.not_lt_zero k)
  traced := .refl s

/-- The first page and then the rest. -/
theorem RunBacked.trans (first : RunBacked root address 1 s t)
    (rest : RunBacked root (address + frameBytes) n t t') (grown : Grown 4 root s t)
    (later : Grown 4 root t t') : RunBacked root address (n + 1) s t' := by
  have one : ∀ b, InRun address 1 b → InRun address (n + 1) b := by
    rintro b ⟨k, small, same⟩
    exact ⟨k, Nat.lt_of_lt_of_le small (Nat.le_add_left 1 n), same⟩
  have others : ∀ b, InRun (address + frameBytes) n b → InRun address (n + 1) b :=
    fun b inside => inRun_succ.mpr (.inr inside)
  constructor
  case beside =>
    intro b outside
    rw [rest.beside b fun inside => outside (others b inside),
      first.beside b fun inside => outside (one b inside)]
  case backed =>
    intro b inside
    constructor
    · obtain same | inside := inRun_succ.mp inside
      · obtain ⟨⟨f, leads⟩, -⟩ := first.backed b ⟨0, Nat.zero_lt_one, by simpa using same⟩
        exact ⟨f, later.keeps _ f leads⟩
      · exact (rest.backed b inside).1
    · obtain same | none := first.kept b
      · rw [← same]
        exact rest.kept b
      · exact .inr none
  case traced =>
    apply Traced.trans _ _ grown later
    · exact first.traced.mono fun p ⟨b, inside, path⟩ => ⟨b, one b inside, path⟩
    · exact rest.traced.mono fun p ⟨b, inside, path⟩ => ⟨b, others b inside, path⟩

theorem RunBacked.congr (run : RunBacked root address n s t) (same : Coincides t t') :
    RunBacked root address n s t' := by
  have follow : ∀ p, t'.memory.follow 4 root p = t.memory.follow 4 root p :=
    Memory.follow_congr fun _ g _ _ l j => Memory.link?_congr (same.entry g j)
  have translate : ∀ b, t'.memory.translate root b = t.memory.translate root b := fun b =>
    Memory.walk_congr (Entry.alike_of_eq (same.entry _ _)) fun _ g _ j =>
      Entry.alike_of_eq (same.entry g j)
  constructor
  case beside => exact fun b outside => (translate b).trans (run.beside b outside)
  case backed =>
    intro b inside
    rw [follow, translate]
    exact run.backed b inside
  case traced =>
    intro g j
    rw [same.entry, same.frames]
    exact run.traced g j

/-- A run of one page. -/
theorem runBacked_one (well : s.WellFormed 4 root) (bounded : s.Bounded)
    (filled : (fill 4 s root (.ofNat address) 1).value = (.ok 0, t)) :
    RunBacked root address 1 s t := by
  have page := onePage_fill 3 s root (.ofNat address) well bounded
  have traced := traced_fill_one 4 s root (.ofNat address) well bounded
  rw [filled] at page traced
  obtain ⟨-, beside, f, there, before⟩ := page
  have single : ∀ {b}, InRun address 1 b ↔ pageOf b = pageOf address := by
    intro b
    rw [inRun_succ]
    exact or_iff_left fun ⟨k, small, _⟩ => Nat.not_lt_zero k small
  constructor
  case beside =>
    exact fun b outside => beside _ fun same => outside (single.mpr (path_eq_iff.mp same))
  case backed =>
    intro b inside
    have path := path_eq_iff.mpr (single.mp inside)
    apply And.intro ⟨f, path ▸ there⟩
    obtain kept | none := before
    · left
      rw [← path] at there kept
      rw [Memory.translate, Memory.translate, Memory.walk_of_follow there,
        Memory.walk_of_follow kept]
    · exact .inr (none _ path)
  case traced =>
    apply traced.mono
    rintro p rfl
    exact ⟨address, single.mpr rfl, rfl⟩

/-- Every run that is mapped is backed, page by page. -/
theorem runBacked_fill (n : Nat) : ∀ (s t : Store) (address : Nat), s.WellFormed 4 root →
    s.Bounded → (fill 4 s root (.ofNat address) n).value = (.ok 0, t) →
      RunBacked root address n s t := by
  induction n with
  | zero =>
    intro s t address _ _ filled
    rw [fill_zero] at filled
    cases filled
    exact .empty s
  | succ n ih =>
    intro s t address well bounded filled
    have split := fill_pages well bounded address n
    have grown := grown_fill 4 s root (.ofNat address) 1 well bounded
    rw [filled] at split
    rcases page : (fill 4 s root (.ofNat address) 1).value with ⟨e | left, s₁⟩ <;>
      rw [page] at split grown
    · cases split.answer
    · obtain rfl := left_of_one well bounded page
      have first := runBacked_one well bounded page
      simp only [andThen] at split
      split at split
      · -- the last page of all, so nothing else is asked for
        obtain ⟨none, same⟩ := split
        cases none
        exact first.congr same.symm
      · have well₁ := grown.wellFormed well
        have bounded₁ := grown.bounded bounded
        rcases rest : (fill 4 s₁ root (.ofNat (address + frameBytes)) n).value with ⟨answer, s₂⟩
        have later := grown_fill 4 s₁ root (.ofNat (address + frameBytes)) n well₁ bounded₁
        rw [rest] at split later
        obtain ⟨rfl, same⟩ := split
        exact (first.trans (ih s₁ s₂ _ well₁ bounded₁ rest) grown later).congr same.symm

/-! ## Whole runs -/

/-- From `s` to `s'` a run was mapped, and nothing else happened. -/
structure RunMapped (root address n : Nat) (s s' : Store) : Prop where
  /-- Every address of the run leads to a frame, at its own offset. -/
  translated : ∀ b, InRun address n b →
    ∃ f, s'.memory.translate root b = some (f * frameBytes + b % frameBytes)
  kept : ∀ b, InRun address n b → ∀ target, s.memory.translate root b = some target →
    s'.memory.translate root b = some target
  /-- A page that was not there has a cleared frame that was free, and that nothing else of the tree
  has. -/
  own : ∀ b, InRun address n b → s.memory.translate root b = none →
    ∃ f, s'.memory.translate root b = some (f * frameBytes + b % frameBytes) ∧
      s.frames.isTaken f = false ∧ s'.frames.isTaken f = true ∧
      (∀ i, s'.memory.entry f i = .zero) ∧
      ∀ p, s'.memory.follow 4 root p = some f → p = (Linear.ofNat b).path 4
  beside : ∀ b, ¬InRun address n b → s'.memory.translate root b = s.memory.translate root b
  /-- Only entries on the way to a page of the run are written, and frames that were free. -/
  written : ∀ g i, s'.memory.entry g i = s.memory.entry g i ∨
    (∃ b, InRun address n b ∧ ∃ q, s.memory.follow 4 root q = some g ∧
      q ++ [i] <+: (Linear.ofNat b).path 4) ∨
    s.frames.isTaken g = false ∧ s'.frames.isTaken g = true

/-- Where the path of an address leads to a frame, the address does. -/
theorem translate_of_follow {m : Memory}
    (leads : m.follow 4 root ((Linear.ofNat b).path 4) = some f) :
    m.translate root b = some (f * frameBytes + b % frameBytes) := by
  have offset : (Linear.ofNat b).toNat % frameBytes = b % frameBytes := by
    rw [Linear.toNat_ofNat]
    exact Nat.mod_mod_of_dvd b (by decide)
  rw [Memory.translate, Memory.walk_of_follow leads, offset]

theorem RunBacked.mapped (run : RunBacked root address n s s') (grown : Grown 4 root s s') :
    RunMapped root address n s s' := by
  constructor
  case translated =>
    intro b inside
    obtain ⟨⟨f, leads⟩, -⟩ := run.backed b inside
    exact ⟨f, translate_of_follow leads⟩
  case kept =>
    intro b inside target led
    obtain same | none := run.kept b
    · exact same.trans led
    · rw [led] at none
      cases none
  case own =>
    intro b inside none
    obtain ⟨⟨f, leads⟩, -⟩ := run.backed b inside
    obtain before | free := grown.fresh _ f leads
    · rw [translate_of_follow before] at none
      cases none
    · have taken : s'.frames.isTaken f = true := (grown.taken f).mpr (.inr ⟨_, leads⟩)
      have cleared : ∀ i, s'.memory.entry f i = .zero := fun i =>
        (grown.new _ f leads free i).2 (Linear.length_path _ 4)
      exact ⟨f, translate_of_follow leads, free, taken, cleared,
        fun p other => grown.unique p _ f other leads⟩
  case beside => exact run.beside
  case written =>
    intro g i
    apply (run.traced g i).imp_right (Or.imp_left _)
    rintro ⟨q, leads, p, ⟨b, inside, rfl⟩, through⟩
    exact ⟨b, inside, q, leads, through⟩

/-- **A run is mapped exactly.** In a well-formed tree, if a run of pages has been mapped to its
end, each of them leads to a frame at the offset asked for. What was mapped before is translated as
before; each other page has got a frame of its own, which was free, is taken now and reads as zero
whatever it held. No address outside the run is translated differently, and nothing was written but
the entries on the way to the pages of the run and frames that were free. -/
theorem run_mapped_exactly (root address n : Nat) (s s' : Store) (well : s.WellFormed 4 root)
    (bounded : s.Bounded) (mapped : (s.map root address n).value = (.ok (), s')) :
    RunMapped root address n s s' := by
  have grown := grown_map well bounded address n
  rw [mapped] at grown
  rw [value_map] at mapped
  rcases filled : (fill 4 s root (.ofNat address) n).value with ⟨e | _ | left, t⟩ <;>
    rw [filled] at mapped
  · cases congrArg Prod.fst mapped
  · obtain rfl := congrArg Prod.snd mapped
    exact (runBacked_fill n s t address well bounded filled).mapped grown
  · cases congrArg Prod.fst mapped

/-- The last page of one slot of the top table and the first of the next. Memory held something
before. The first page is mapped already, so its frame stays, and the other one needs three tables
and a frame. -/
theorem run_mapped_exactly_across_slots :
    let s₀ : Store := ⟨((Frames.full 1).release 0 16).mark 0 1,
      (Memory.filled (.ofNat 0x2003)).clear 0⟩
    let s := (s₀.map 0 0x7ffffff000 1).value.2
    let s' := (s.map 0 0x7ffffff000 2).value.2
    s.WellFormed 4 0 ∧ s.Bounded ∧ (s.map 0 0x7ffffff000 2).value = (.ok (), s') ∧
      RunMapped 0 0x7ffffff000 2 s s' ∧
      s.memory.translate 0 0x7ffffff123 = some 0x4123 ∧
      s.memory.translate 0 0x8000000123 = none ∧
      s'.memory.translate 0 0x7ffffff123 = some 0x4123 ∧
      s'.memory.translate 0 0x8000000123 = some 0x8123 := by
  intro s₀ s s'
  have clear : ∀ i, s₀.memory.entry 0 i = .zero := fun i => by rw [Memory.entry_clear, if_pos rfl]
  have top : s₀.frames.isTaken 0 = true := by decide
  have small : s₀.frames.capacity ≤ Entry.frameBound := by decide
  have owned : Owned 0 s₀ s := owned_paged top small clear (.map 0x7ffffff000 1 .start)
  have well : s.WellFormed 4 0 := owned.wellFormed top
  have bounded : s.Bounded := by
    unfold Bounded
    rw [owned.capacity]
    exact small
  have told : (s.map 0 0x7ffffff000 2).value.1.isOk = true := by
    simp only [s, s₀]
    decide +kernel
  have mapped : (s.map 0 0x7ffffff000 2).value = (.ok (), s') := by
    cases answer : (s.map 0 0x7ffffff000 2).value.1 with
    | error e =>
      rw [answer] at told
      cases told
    | ok => exact Prod.ext answer rfl
  apply And.intro well (And.intro bounded (And.intro mapped _))
  apply And.intro (run_mapped_exactly 0 0x7ffffff000 2 s s' well bounded mapped)
  simp only [s, s', s₀]
  decide +kernel

end Store

end Nucleus
