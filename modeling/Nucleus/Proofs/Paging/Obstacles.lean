import Mathlib.Data.Finset.Card
import Mathlib.Order.Interval.Finset.Nat
import Nucleus.Proofs.Paging.Leaves

/-!
# Obstacles

Two things can keep a page from being mapped: a large page that covers it, and a lack of frames for
the tables that are missing on its path and for the page itself.

* `Memory.covered`, `Memory.missing`: whether a large page is on a path, and how many frames the
  path is short of.
* `Frames.available`: the frames that can be had, one at a time.
* `answer_one`: these say what mapping a page is answered.
* `Grown.covered_eq`: large pages on the path of an address neither come nor go while a tree grows.
-/

namespace Nucleus
open Platform

/-! ## On the path of an address -/

namespace Memory
variable {m m' : Memory} {a : Linear} {level table : Nat}

/-- Whether there is a large page on the path of `a` from a table at `level` down. -/
def covered (m : Memory) (a : Linear) : (level table : Nat) → Bool
  | 0, _ => false
  | level + 1, table =>
    let e := m.entry table (a.part (level + 1))
    e.present && (level != 0 && e.huge || m.covered a level e.frame)

/-- The number of tables and pages that are not there on the path of `a` from a table at `level`
down, unless it ends at a large page. -/
def missing (m : Memory) (a : Linear) : (level table : Nat) → Nat
  | 0, _ => 0
  | level + 1, table =>
    let e := m.entry table (a.part (level + 1))
    if !e.present then level + 1
    else if level != 0 && e.huge then 0
    else m.missing a level e.frame

theorem covered_of_absent (absent : (m.entry table (a.part (level + 1))).present = false) :
    m.covered a (level + 1) table = false := by
  simp [covered, absent]

theorem missing_of_absent (absent : (m.entry table (a.part (level + 1))).present = false) :
    m.missing a (level + 1) table = level + 1 := by
  simp [missing, absent]

theorem covered_of_large (present : (m.entry table (a.part (level + 1))).present = true)
    (inner : level ≠ 0) (huge : (m.entry table (a.part (level + 1))).huge = true) :
    m.covered a (level + 1) table = true := by
  simp [covered, present, inner, huge]

theorem covered_of_table (present : (m.entry table (a.part (level + 1))).present = true)
    (small : level = 0 ∨ (m.entry table (a.part (level + 1))).huge = false) :
    m.covered a (level + 1) table =
      m.covered a level (m.entry table (a.part (level + 1))).frame := by
  cases small with
  | inl last =>
    subst last
    simp [covered, present]
  | inr small => simp [covered, present, small]

theorem missing_of_table (present : (m.entry table (a.part (level + 1))).present = true)
    (small : level = 0 ∨ (m.entry table (a.part (level + 1))).huge = false) :
    m.missing a (level + 1) table =
      m.missing a level (m.entry table (a.part (level + 1))).frame := by
  cases small with
  | inl last =>
    subst last
    simp [missing, present]
  | inr small => simp [missing, present, small]

theorem covered_congr (alike : ∀ g j, (m.entry g j).Alike (m'.entry g j)) :
    ∀ level table, m'.covered a level table = m.covered a level table := by
  intro level
  induction level with
  | zero => exact fun _ => rfl
  | succ level ih =>
    intro table
    obtain ⟨present, huge, frame⟩ := alike table (a.part (level + 1))
    simp [covered, present, huge, frame, ih]

theorem missing_congr (alike : ∀ g j, (m.entry g j).Alike (m'.entry g j)) :
    ∀ level table, m'.missing a level table = m.missing a level table := by
  intro level
  induction level with
  | zero => exact fun _ => rfl
  | succ level ih =>
    intro table
    obtain ⟨present, huge, frame⟩ := alike table (a.part (level + 1))
    simp [missing, present, huge, frame, ih]

/-- Where a large page is in the way, nothing is missing before it. -/
theorem missing_of_covered (covered : m.covered a level table = true) :
    m.missing a level table = 0 := by
  induction level generalizing table with
  | zero => rfl
  | succ level ih =>
    cases there : (m.entry table (a.part (level + 1))).present with
    | false =>
      rw [covered_of_absent there] at covered
      cases covered
    | true =>
      by_cases small : level = 0 ∨ (m.entry table (a.part (level + 1))).huge = false
      · rw [covered_of_table there small] at covered
        rw [missing_of_table there small]
        exact ih covered
      · obtain ⟨inner, huge⟩ := not_or.mp small
        rw [Bool.not_eq_false] at huge
        simp [missing, there, inner, huge]

/-- Below a clear table everything is missing. -/
theorem missing_of_clear (clear : ∀ j, m.entry table j = .zero) (a : Linear) (level : Nat) :
    m.missing a level table = level := by
  cases level with
  | zero => rfl
  | succ level => exact missing_of_absent (by rw [clear]; rfl)

theorem covered_of_clear (clear : ∀ j, m.entry table j = .zero) (a : Linear) (level : Nat) :
    m.covered a level table = false := by
  cases level with
  | zero => rfl
  | succ level => exact covered_of_absent (by rw [clear]; rfl)

/-- A path is covered by an entry above the pages that is present and huge. -/
theorem covered_iff : m.covered a level table = true ↔ ∃ p i rest g,
    a.path level = p ++ i :: rest ∧ rest ≠ [] ∧ m.follow level table p = some g ∧
      (m.entry g i).present = true ∧ (m.entry g i).huge = true := by
  induction level generalizing table with
  | zero => simp [covered, Linear.path]
  | succ level ih =>
    constructor
    · intro covered
      cases there : (m.entry table (a.part (level + 1))).present with
      | false =>
        rw [covered_of_absent there] at covered
        cases covered
      | true =>
        by_cases small : level = 0 ∨ (m.entry table (a.part (level + 1))).huge = false
        · -- further down, as this entry leads there
          rw [covered_of_table there small] at covered
          obtain ⟨p, i, rest, g, path, more, leads, present, huge⟩ := ih.mp covered
          have linked := link?_of_table there small
          exact ⟨_ :: p, i, rest, g, congrArg _ path, more, (follow_link linked).trans leads,
            present, huge⟩
        · obtain ⟨inner, huge⟩ := not_or.mp small
          rw [Bool.not_eq_false] at huge
          have more : a.path level ≠ [] := by
            intro none
            have length := Linear.length_path a level
            rw [none] at length
            exact inner length.symm
          exact ⟨[], _, _, table, rfl, more, follow_nil, there, huge⟩
    · rintro ⟨p, i, rest, g, path, more, leads, present, huge⟩
      cases p with
      | nil =>
        obtain rfl : table = g := by simpa using leads
        obtain ⟨rfl, rfl⟩ : a.part (level + 1) = i ∧ a.path level = rest := by
          simpa [Linear.path_succ] using path
        apply covered_of_large present _ huge
        rintro rfl
        exact more rfl
      | cons j p =>
        obtain ⟨rfl, through⟩ : a.part (level + 1) = j ∧ a.path level = p ++ i :: rest := by
          simpa [Linear.path_succ] using path
        obtain ⟨f, linked, leads⟩ := follow_cons_eq_some.mp leads
        obtain ⟨there, -, rfl⟩ := link?_eq_some.mp linked
        have below := ih.mpr ⟨p, i, rest, g, through, more, leads, present, huge⟩
        simp [covered, there, below]

end Memory

/-! ## What the allocator can give -/

namespace Frames
variable {fs fs' : Frames} {f : Nat}

/-- The free frames of the window. -/
def vacant (fs : Frames) : Finset Nat :=
  (Finset.Ico fs.window.first fs.window.stop).filter fun f => fs.isTaken f = false

/-- How many requests for one frame can be granted. -/
def available (fs : Frames) : Nat := fs.vacant.card

theorem mem_vacant : f ∈ fs.vacant ↔
    (fs.window.first ≤ f ∧ f < fs.window.stop) ∧ fs.isTaken f = false := by
  simp [vacant]

theorem available_of_granted (small : fs.capacity ≤ Word.max)
    (granted : (fs.allocate 1).value = .ok (f, fs')) : fs.available = fs'.available + 1 := by
  obtain ⟨-, fits, -, rfl⟩ := allocate_eq_ok.mp granted
  have free : fs.isTaken f = false := fits.free f (Nat.le_refl f) (Nat.lt_succ_self f)
  have low : f < Word.max := Nat.lt_of_lt_of_le (lt_capacity_of_free free) small
  have here : f ∈ fs.vacant := mem_vacant.mpr ⟨⟨fits.first, fits.stop⟩, free⟩
  have rest : (fs.mark f 1).vacant = fs.vacant.erase f := by
    ext g
    have same : (fs.mark f 1).window = fs.window := rfl
    rw [Finset.mem_erase, mem_vacant, mem_vacant, free_after_one low, same]
    tauto
  have some : 0 < fs.vacant.card := Finset.card_pos.mpr ⟨f, here⟩
  rw [available, available, rest, Finset.card_erase_of_mem here]
  omega

theorem available_of_refused {e : AllocError} (refused : (fs.allocate 1).value = .error e) :
    e = .outOfMemory 1 ∧ fs.available = 0 := by
  rw [value_allocate, if_neg Nat.one_ne_zero] at refused
  cases found : fs.bitmap.firstFit fs.window 1 with
  | some f =>
    rw [found] at refused
    cases refused
  | none =>
    rw [found] at refused
    cases refused
    apply And.intro rfl
    apply Finset.card_eq_zero.mpr
    apply Finset.eq_empty_of_forall_notMem
    intro f here
    obtain ⟨⟨low, high⟩, free⟩ := mem_vacant.mp here
    apply (Bitmap.firstFit_eq_none Nat.one_pos).mp found f
    constructor
    case first => exact low
    case stop => exact high
    case free =>
      intro g above below
      obtain rfl : g = f := by omega
      exact free

end Frames

/-! ## The answer for one page -/

namespace Store
variable {s s' : Store} {a : Linear} {level table : Nat}

theorem Bounded.max (bounded : s.Bounded) : s.frames.capacity ≤ Word.max :=
  Nat.le_trans bounded (by decide)

/-- A page is refused if a large page covers it. Otherwise it can be mapped just if there are as
many frames as it is short of. -/
theorem answer_one : ∀ {level : Nat} {s : Store} {table : Nat}, s.WellFormed level table →
    s.Bounded → (fill level s table a 1).value.1 =
      if s.memory.covered a level table = true then .error (.hugePage a.canonical.toNat)
      else if s.frames.available < s.memory.missing a level table then
        .error (.alloc (.outOfMemory 1))
      else .ok 0 := by
  intro level
  induction level with
  | zero =>
    intro s table _ _
    simp [fill, Memory.covered, Memory.missing]
  | succ level ih =>
    intro s table well bounded
    rw [fill_through well bounded]
    cases there : (s.memory.entry table (a.part (level + 1))).present with
    | true =>
      by_cases small : level = 0 ∨ (s.memory.entry table (a.part (level + 1))).huge = false
      · -- the entry is opened, which makes no difference to what is below it
        have alike := s.alike_open table (a.part (level + 1))
        have linked := (s.link?_open table (a.part (level + 1)) (level + 1) table _).trans
          (Memory.link?_of_table there small)
        have inner := ((grown_open well there).wellFormed well).below linked
        have opened : (s.openEntry table (a.part (level + 1))).frames = s.frames := rfl
        have below := ih inner ((grown_open well there).bounded bounded)
        rw [Memory.covered_congr alike, Memory.missing_congr alike, opened] at below
        rw [descend_table there (small.imp_left (by omega)), Memory.covered_of_table there small,
          Memory.missing_of_table there small]
        exact below
      · obtain ⟨inner, huge⟩ := not_or.mp small
        rw [Bool.not_eq_false] at huge
        rw [descend_large there huge (by omega), Memory.covered_of_large there inner huge]
        simp [andThen]
    | false =>
      rw [Memory.covered_of_absent there, Memory.missing_of_absent there]
      cases granted : (s.frames.allocate 1).value with
      | error e =>
        obtain ⟨rfl, none⟩ := Frames.available_of_refused granted
        rw [descend_refused there granted]
        simp [andThen, none]
      | ok r =>
        obtain ⟨f, frames⟩ := r
        have given := granted_of_allocate bounded granted
        have taken := well.taken [] table Memory.follow_nil
        have clear := given.clear taken (a.part (level + 1))
        have fewer := Frames.available_of_granted bounded.max granted
        obtain ⟨grown, linked⟩ := grown_descend well bounded a
        rw [descend_planted there granted] at grown linked ⊢
        have inner := (grown.wellFormed well).below (linked f rfl)
        have below := ih inner (grown.bounded bounded)
        have left : (s.plant frames f table (a.part (level + 1))).frames = frames := rfl
        rw [Memory.covered_of_clear clear, Memory.missing_of_clear clear, left] at below
        have order : s.frames.available < level + 1 ↔ frames.available < level := by omega
        simpa [andThen, order] using below

/-- So there is one reason why a page cannot be mapped: a large page covers it, and then it is short
of nothing, or there are not enough frames. -/
theorem cause_of_failed (well : s.WellFormed level table) (bounded : s.Bounded) {e : PagingError}
    (failed : (fill level s table a 1).value.1 = .error e) :
    e = .hugePage a.canonical.toNat ∧ s.memory.covered a level table = true ∧
        s.memory.missing a level table = 0 ∨
      e = .alloc (.outOfMemory 1) ∧ s.memory.covered a level table = false ∧
        s.frames.available < s.memory.missing a level table := by
  have answer := answer_one well bounded (a := a)
  rw [failed] at answer
  cases covered : s.memory.covered a level table with
  | true =>
    have nothing := Memory.missing_of_covered covered
    exact .inl ⟨by simpa [covered] using answer, rfl, nothing⟩
  | false =>
    by_cases short : s.frames.available < s.memory.missing a level table
    · exact .inr ⟨by simpa [covered, short] using answer, rfl, short⟩
    · simp [covered, short] at answer

/-- Large pages on the path of an address neither come nor go while a tree grows. -/
theorem Grown.covered_eq (grown : Grown level table s s') (well : s.WellFormed level table)
    (a : Linear) : s'.memory.covered a level table = s.memory.covered a level table := by
  rw [Bool.eq_iff_iff, Memory.covered_iff, Memory.covered_iff]
  have short {p rest : List (Fin 512)} {i : Fin 512} (path : a.path level = p ++ i :: rest) :
      p.length < level := by
    have length := congrArg List.length path
    simp only [Linear.length_path, List.length_append, List.length_cons] at length
    omega
  constructor
  · rintro ⟨p, i, rest, g, path, more, leads, present, huge⟩
    obtain before | free := grown.fresh p g leads
    · have grows := grown.old p g before (short path) i
      rw [grows.huge] at huge
      refine ⟨p, i, rest, g, path, more, before, ?_, huge⟩
      -- what was absent was clear
      cases there : (s.memory.entry g i).present with
      | true => rfl
      | false =>
        rw [well.absent p g before (short path) i there] at huge
        cases huge
    · have grows := (grown.new p g leads free i).1
      rw [grows.huge] at huge
      cases huge
  · rintro ⟨p, i, rest, g, path, more, leads, present, huge⟩
    have grows := grown.old p g leads (short path) i
    exact ⟨p, i, rest, g, path, more, grown.keeps p g leads, grows.present present,
      grows.huge.trans huge⟩

end Store

end Nucleus
