import Mathlib.Tactic.IntervalCases
import Nucleus.Proofs.Paging.Agreement
import Nucleus.Proofs.Paging.Faults

/-!
# Page by page

A run of pages is mapped in one walk that goes through the tree slot by slot and keeps the tables
that it has come to. It could as well start again from the top table for every page: the tables on
the way are there by then, and open.

* `Linear.next`: the page after a page, by a carry from index to index.
* `Coincides`, `Concurs`: the same store, and the same ending, as far as can be told from outside.
* `Ending.andThen`: one thing after the other, up to an error.
* `Ready`: an entry that has been gone through. It can be gone through again, and that changes
  nothing.
* `concurs_fill`: mapping does not tell apart stores that coincide, nor addresses that differ in the
  bits that no table looks at.
* `fill_succ`, `fill_pages`: a run is its first page and then the rest.
-/

namespace Nucleus
open Platform

/-! ## The next page -/

namespace Linear
variable {a b : Linear} {l level : Nat}

/-- Whether the page of `a` is the last one below a table at `level`. -/
def last (a : Linear) : (level : Nat) → Bool
  | 0 => true
  | level + 1 => a.part (level + 1) = 511 && a.last level

/-- The page after that of `a`, below a table at `level`. -/
def next (a : Linear) : (level : Nat) → Linear
  | 0 => a
  | level + 1 => if a.last level then a.advance (level + 1) else a.next level

theorem next_of_last (last : a.last level = true) : a.next (level + 1) = a.advance (level + 1) :=
  if_pos last

theorem next_of_not_last (more : a.last level = false) : a.next (level + 1) = a.next level :=
  if_neg (by simp [more])

theorem part_advance_self (inner : 0 < level) (small : level ≤ 4) :
    (a.advance level).part level = Fin.ofNat 512 (a.part level + 1) := by
  interval_cases level <;> rfl

/-- What is below an index has no bearing on those above it. -/
theorem part_advance_above (lower : l < level) (small : level ≤ 4) :
    (a.advance l).part level = a.part level := by
  interval_cases level <;> interval_cases l <;> rfl

theorem advance_advance (lower : l < level) (small : level ≤ 4) :
    (a.advance l).advance level = a.advance level := by
  interval_cases level <;> interval_cases l <;> rfl

/-- The carry ends at one index. -/
theorem exists_next (a : Linear) (level : Nat) : ∃ l, l ≤ level ∧ a.next level = a.advance l := by
  induction level with
  | zero => exact ⟨0, Nat.le_refl 0, rfl⟩
  | succ level ih =>
    cases last : a.last level with
    | true => exact ⟨level + 1, Nat.le_refl _, next_of_last last⟩
    | false =>
      obtain ⟨l, le, carried⟩ := ih
      exact ⟨l, Nat.le_succ_of_le le, (next_of_not_last last).trans carried⟩

theorem part_next (small : level < 4) : (a.next level).part (level + 1) = a.part (level + 1) := by
  obtain ⟨l, le, carried⟩ := a.exists_next level
  rw [carried]
  exact part_advance_above (Nat.lt_succ_of_le le) small

theorem advance_next (small : level < 4) :
    (a.next level).advance (level + 1) = a.advance (level + 1) := by
  obtain ⟨l, le, carried⟩ := a.exists_next level
  rw [carried]
  exact advance_advance (Nat.lt_succ_of_le le) small

/-- Unless the page is the last one, the carry ends where there is room. -/
theorem exists_carry (more : a.last level = false) : ∃ l, l < level ∧ a.last l = true ∧
    a.part (l + 1) ≠ 511 ∧ a.next level = a.advance (l + 1) := by
  induction level with
  | zero => cases more
  | succ level ih =>
    cases full : a.last level with
    | true =>
      refine ⟨level, Nat.lt_succ_self level, full, fun top => ?_, next_of_last full⟩
      simp [last, top, full] at more
    | false =>
      obtain ⟨l, lower, rest⟩ := ih full
      rw [next_of_not_last full]
      exact ⟨l, Nat.lt_succ_of_lt lower, rest⟩

/-! ### Bits that no table looks at -/

theorem part_canonical (a : Linear) (level : Nat) : a.canonical.part level = a.part level := by
  unfold part
  split <;> rfl

theorem part_eq_of_canonical (same : b.canonical = a.canonical) (level : Nat) :
    b.part level = a.part level := by
  rw [← part_canonical, same, part_canonical]

theorem setPart_canonical (a : Linear) (level v : Nat) :
    (a.canonical.setPart level v).canonical = (a.setPart level v).canonical := by
  unfold setPart
  split <;> rfl

theorem clearBelow_canonical (same : b.canonical = a.canonical) (level : Nat) :
    (b.clearBelow level).canonical = (a.clearBelow level).canonical := by
  unfold clearBelow
  generalize List.range level = levels
  induction levels generalizing a b with
  | nil => exact same
  | cons l levels ih =>
    apply ih
    rw [← setPart_canonical, same, setPart_canonical]

theorem advance_canonical (same : b.canonical = a.canonical) (level : Nat) :
    (b.advance level).canonical = (a.advance level).canonical := by
  apply clearBelow_canonical
  rw [part_eq_of_canonical same, ← setPart_canonical, same, setPart_canonical]

/-! ### As numbers -/

theorem last_ofNat {address : Nat} :
    (ofNat address).last 4 = true ↔ address % reach / frameBytes + 1 = reach / frameBytes := by
  simp only [last, part, ofNat, Fin.ofNat, Bool.and_true, Bool.and_eq_true, decide_eq_true_eq,
    Fin.ext_iff, reach, frameBytes]
  omega

theorem canonical_congr (offset : b.offset = a.offset) (pt : b.pt = a.pt) (pd : b.pd = a.pd)
    (pdpt : b.pdpt = a.pdpt) (pml4 : b.pml4 = a.pml4) : b.canonical = a.canonical := by
  simp only [canonical, offset, pt, pd, pdpt, pml4]

/-- Where the carry of an address ends, one page on is the first page of the next entry. -/
theorem advance_ofNat {address : Nat} (full : (ofNat address).last level = true)
    (room : (ofNat address).part (level + 1) ≠ 511) (small : level < 4) :
    (ofNat (address + frameBytes)).canonical = ((ofNat address).advance (level + 1)).canonical := by
  interval_cases level <;>
    simp only [last, part, Bool.and_true, Bool.and_eq_true, decide_eq_true_eq, ofNat, Fin.ofNat,
      Fin.ext_iff, ne_eq] at full room <;>
    apply canonical_congr <;>
    simp only [advance, clearBelow, List.range, List.range.loop, List.foldl, setPart, part, ofNat,
      Fin.ofNat, Fin.ext_iff, frameBytes] <;>
    omega

theorem next_ofNat {address : Nat} (more : (ofNat address).last 4 = false) :
    (ofNat (address + frameBytes)).canonical = ((ofNat address).next 4).canonical := by
  obtain ⟨level, small, full, room, carried⟩ := exists_carry more
  rw [carried]
  exact advance_ofNat full room small

end Linear

namespace Store
variable {s s' t t' u : Store} {α β γ : Type} {a b : Linear} {level table f : Nat} {i : Fin 512}

/-! ## Endings -/

/-- The same frames are free, and all entries are the same. -/
structure Coincides (s s' : Store) : Prop where
  frames : s'.frames = s.frames
  entry : ∀ g i, s'.memory.entry g i = s.memory.entry g i

theorem Coincides.refl (s : Store) : Coincides s s := ⟨rfl, fun _ _ => rfl⟩

theorem Coincides.symm (same : Coincides s t) : Coincides t s :=
  ⟨same.frames.symm, fun g i => (same.entry g i).symm⟩

theorem Coincides.trans (first : Coincides s t) (second : Coincides t u) : Coincides s u :=
  ⟨second.frames.trans first.frames, fun g i => (second.entry g i).trans (first.entry g i)⟩

/-- An answer or an error, and the store that is left. -/
abbrev Ending (α : Type) := Except PagingError α × Store

/-- Go on with `k` unless there was an error. -/
def andThen (r : Ending α) (k : α → Store → Ending β) : Ending β :=
  match r with
  | (.error e, s) => (.error e, s)
  | (.ok a, s) => k a s

theorem andThen_assoc (r : Ending α) (k : α → Store → Ending β) (l : β → Store → Ending γ) :
    andThen (andThen r k) l = andThen r fun a s => andThen (k a s) l := by
  obtain ⟨_ | _, _⟩ := r <;> rfl

/-- Two endings are the same, as far as can be told from outside. -/
structure Concurs (r r' : Ending α) : Prop where
  answer : r'.1 = r.1
  store : Coincides r.2 r'.2

theorem Concurs.refl (r : Ending α) : Concurs r r := ⟨rfl, .refl _⟩

theorem Concurs.symm {r r' : Ending α} (same : Concurs r r') : Concurs r' r :=
  ⟨same.answer.symm, same.store.symm⟩

theorem Concurs.trans {r r' r'' : Ending α} (first : Concurs r r') (second : Concurs r' r'') :
    Concurs r r'' :=
  ⟨second.answer.trans first.answer, first.store.trans second.store⟩

theorem Concurs.andThen {r r' : Ending α} {k k' : α → Store → Ending β} (first : Concurs r r')
    (rest : ∀ x s s', Coincides s s' → Concurs (k x s) (k' x s')) :
    Concurs (andThen r k) (andThen r' k') := by
  obtain ⟨answer, t⟩ := r
  obtain ⟨answer', t'⟩ := r'
  obtain ⟨same, left⟩ := first
  cases same
  cases answer with
  | error e => exact ⟨rfl, left⟩
  | ok x => exact rest x t t' left

/-- After one and the same beginning only what it can come to matters. -/
theorem concurs_andThen {r : Ending α} {k k' : α → Store → Ending β}
    (rest : ∀ x s, r = (.ok x, s) → Concurs (k x s) (k' x s)) :
    Concurs (andThen r k) (andThen r k') := by
  obtain ⟨e | x, s⟩ := r
  · exact .refl _
  · exact rest x s rfl

/-! ## Stores that coincide -/

theorem coincides_open (same : Coincides s s') (table : Nat) (i : Fin 512) :
    Coincides (s.openEntry table i) (s'.openEntry table i) := by
  refine ⟨same.frames, fun g j => ?_⟩
  rw [entry_open, entry_open, same.entry]

theorem coincides_plant (same : Coincides s s') (frames : Frames) (f table : Nat) (i : Fin 512) :
    Coincides (s.plant frames f table i) (s'.plant frames f table i) := by
  refine ⟨rfl, fun g j => ?_⟩
  rw [entry_plant, entry_plant, same.entry]

theorem concurs_descend (same : Coincides s s') (alike : b.canonical = a.canonical)
    (level table : Nat) :
    Concurs (s.descend level table a).value (s'.descend level table b).value := by
  have slot := Linear.part_eq_of_canonical alike level
  have entry := same.entry table (a.part level)
  cases there : (s.memory.entry table (a.part level)).present with
  | true =>
    by_cases small : level ≤ 1 ∨ (s.memory.entry table (a.part level)).huge = false
    · rw [descend_table there small,
        descend_table (by rw [slot, entry, there]) (by rw [slot, entry]; exact small), slot, entry]
      exact ⟨rfl, coincides_open same _ _⟩
    · obtain ⟨inner, huge⟩ := not_or.mp small
      rw [Bool.not_eq_false] at huge
      rw [descend_large there huge (Nat.lt_of_not_le inner),
        descend_large (by rw [slot, entry, there]) (by rw [slot, entry, huge])
          (Nat.lt_of_not_le inner), alike]
      exact ⟨rfl, same⟩
  | false =>
    have there' : (s'.memory.entry table (b.part level)).present = false := by
      rw [slot, entry, there]
    cases granted : (s.frames.allocate 1).value with
    | error e =>
      rw [descend_refused there granted, descend_refused there' (same.frames ▸ granted)]
      exact ⟨rfl, same⟩
    | ok r =>
      rw [descend_planted there granted, descend_planted there' (same.frames ▸ granted), slot]
      exact ⟨rfl, coincides_plant same _ _ _ _⟩

/-- One slot, and then the others. -/
theorem value_fillSlots (below : Fill) (level table slots : Nat) (s : Store) (a : Linear)
    (n : Nat) : (fillSlots below level table (slots + 1) s a (n + 1)).value =
      andThen (s.descend level table a).value fun f s₁ =>
        andThen (below s₁ f a (n + 1)).value fun left s₂ =>
          (fillSlots below level table slots s₂ (a.advance level) left).value := by
  rw [fillSlots, Logged.value_bind]
  obtain ⟨e | f, s₁⟩ := (s.descend level table a).value
  · rfl
  · simp only [andThen, Logged.value_bind]
    obtain ⟨e | left, s₂⟩ := (below s₁ f a (n + 1)).value <;> rfl

theorem concurs_fillSlots {below : Fill} (spec : ∀ (s s' : Store) f (a b : Linear) n,
      Coincides s s' → b.canonical = a.canonical →
      Concurs (below s f a n).value (below s' f b n).value) (level table slots : Nat) :
    ∀ (s s' : Store) (a b : Linear) (n : Nat), Coincides s s' → b.canonical = a.canonical →
      Concurs (fillSlots below level table slots s a n).value
        (fillSlots below level table slots s' b n).value := by
  induction slots with
  | zero =>
    intro s s' a b n same _
    cases n <;> exact ⟨rfl, same⟩
  | succ slots ih =>
    intro s s' a b n same alike
    cases n with
    | zero => exact ⟨rfl, same⟩
    | succ n =>
      rw [value_fillSlots, value_fillSlots]
      apply (concurs_descend same alike level table).andThen
      intro f s₁ s₁' same₁
      apply (spec s₁ s₁' f a b (n + 1) same₁ alike).andThen
      intro left s₂ s₂' same₂
      exact ih s₂ s₂' _ _ left same₂ (Linear.advance_canonical alike level)

theorem concurs_fill (level : Nat) : ∀ (s s' : Store) (table : Nat) (a b : Linear) (n : Nat),
    Coincides s s' → b.canonical = a.canonical →
      Concurs (fill level s table a n).value (fill level s' table b n).value := by
  induction level with
  | zero => exact fun s s' _ _ _ _ same _ => ⟨rfl, same⟩
  | succ level ih =>
    intro s s' table a b n same alike
    rw [fill, fill, Linear.part_eq_of_canonical alike]
    exact concurs_fillSlots (fun s s' f a b n => ih s s' f a b n) _ _ _ s s' a b n same alike

/-! ## Going through an entry again -/

/-- Entry `i` of a table leads to frame `f` and is open. -/
structure Ready (level table f : Nat) (i : Fin 512) (s : Store) : Prop where
  present : (s.memory.entry table i).present = true
  small : level ≤ 1 ∨ (s.memory.entry table i).huge = false
  frame : ((s.memory.entry table i).frame : Nat) = f
  opened : (s.memory.entry table i).opened = s.memory.entry table i

theorem Ready.descend (ready : Ready level table f (a.part level) s) :
    Concurs (s.descend level table a).value (.ok f, s) := by
  rw [descend_table ready.present ready.small, ready.frame]
  refine ⟨rfl, rfl, fun g j => ?_⟩
  rw [entry_open]
  split
  · next here =>
    rw [← here.1, ← here.2]
    exact ready.opened.symm
  · rfl

theorem ready_descend (well : s.WellFormed (level + 1) table) (bounded : s.Bounded)
    (went : (s.descend (level + 1) table a).value = (.ok f, t)) :
    Ready (level + 1) table f (a.part (level + 1)) t := by
  cases there : (s.memory.entry table (a.part (level + 1))).present with
  | true =>
    by_cases small : level + 1 ≤ 1 ∨ (s.memory.entry table (a.part (level + 1))).huge = false
    · rw [descend_table there small] at went
      cases went
      constructor <;> rw [entry_open, if_pos ⟨rfl, rfl⟩]
      · exact there
      · exact small
      · rfl
      · rfl
    · obtain ⟨inner, huge⟩ := not_or.mp small
      rw [Bool.not_eq_false] at huge
      rw [descend_large there huge (Nat.lt_of_not_le inner)] at went
      cases went
  | false =>
    cases granted : (s.frames.allocate 1).value with
    | error e =>
      rw [descend_refused there granted] at went
      cases went
    | ok r =>
      rw [descend_planted there granted] at went
      cases went
      have given := granted_of_allocate bounded granted
      have planted := given.entry (well.taken [] table Memory.follow_nil) (a.part (level + 1))
      rw [well.clear there] at planted
      constructor <;> rw [planted]
      · rfl
      · exact .inr rfl
      · exact Entry.frame_planted given.small .zero
      · rfl

theorem Ready.congr (ready : Ready level table f i s)
    (same : t.memory.entry table i = s.memory.entry table i) : Ready level table f i t := by
  obtain ⟨present, small, frame, opened⟩ := ready
  constructor <;> rw [same] <;> assumption

/-- What grows below an entry leaves the entry alone. -/
theorem Ready.grown (ready : Ready (level + 1) table f i s)
    (well : s.WellFormed (level + 1) table)
    (linked : s.memory.link? (level + 1) table i = some f) (grown : Grown level f s t) :
    Ready (level + 1) table f i t :=
  ready.congr (entry_above well linked grown i)

/-! ## One page after the other -/

theorem fillSlots_none (below : Fill) (level table : Nat) (s : Store) (a : Linear) (n : Nat) :
    (fillSlots below level table 0 s a n).value = (.ok n, s) := by
  cases n <;> rfl

theorem fill_zero (level : Nat) (s : Store) (table : Nat) (a : Linear) :
    (fill (level + 1) s table a 0).value = (.ok 0, s) := fillSlots_done _ _ _ _ _ _

/-- Nothing is left of a run of one page. -/
theorem left_of_one (well : s.WellFormed level table) (bounded : s.Bounded) {left : Nat}
    (filled : (fill level s table a 1).value = (.ok left, t)) : left = 0 := by
  cases level with
  | zero =>
    cases filled
    rfl
  | succ level =>
    have page := onePage_fill level s table a well bounded
    rw [filled] at page
    exact page.1

/-- A run that is not empty goes through the slot of its first page. -/
theorem value_fill (level : Nat) (s : Store) (table : Nat) (a : Linear) (n : Nat) :
    (fill (level + 1) s table a (n + 1)).value =
      andThen (s.descend (level + 1) table a).value fun f s₁ =>
        andThen (fill level s₁ f a (n + 1)).value fun left s₂ =>
          (fillSlots (fill level) (level + 1) table (511 - a.part (level + 1)) s₂
            (a.advance (level + 1)) left).value := by
  have slots : 512 - (a.part (level + 1)).val = 511 - (a.part (level + 1)).val + 1 := by
    have bound := (a.part (level + 1)).isLt
    omega
  rw [fill, slots]
  exact value_fillSlots _ _ _ _ _ _ _

/-- What is left of a run below a table once its first page is mapped. -/
def fillRest (level : Nat) (s : Store) (table : Nat) (a : Linear) (n : Nat) : Ending Nat :=
  if a.last level then (.ok n, s) else (fill level s table (a.next level) n).value

theorem fillRest_of_last (last : a.last level = true) (s : Store) (table n : Nat) :
    fillRest level s table a n = (.ok n, s) := if_pos last

theorem fillRest_of_not_last (more : a.last level = false) (s : Store) (table n : Nat) :
    fillRest level s table a n = (fill level s table (a.next level) n).value :=
  if_neg (by simp [more])

/-- Past a page, the rest below its entry and then the slots behind it are the rest below the
table. -/
theorem concurs_fillRest (small : level < 4)
    (ready : Ready (level + 1) table f (a.part (level + 1)) s) (n : Nat) :
    Concurs
      (andThen (fillRest level s f a n) fun left t =>
        (fillSlots (fill level) (level + 1) table (511 - a.part (level + 1)) t
          (a.advance (level + 1)) left).value)
      (fillRest (level + 1) s table a n) := by
  cases full : a.last level with
  | true =>
    rw [fillRest_of_last full]
    by_cases top : a.part (level + 1) = 511
    · -- the table is used up
      have none : 511 - ((511 : Fin 512) : Nat) = 0 := rfl
      rw [fillRest_of_last (by simp [Linear.last, full, top]), top, none]
      simp only [andThen, fillSlots_none]
      exact .refl _
    · -- on with the next slot
      have more : a.last (level + 1) = false := by simp [Linear.last, top]
      have next : ((a.advance (level + 1)).part (level + 1) : Nat) = a.part (level + 1) + 1 := by
        have inner : 0 < level + 1 := Nat.zero_lt_succ level
        rw [Linear.part_advance_self inner small, Fin.val_ofNat]
        have bound := (a.part (level + 1)).isLt
        have below : ((a.part (level + 1) : Fin 512) : Nat) ≠ 511 := fun same => top (Fin.ext same)
        omega
      have slots : 512 - ((a.part (level + 1) : Nat) + 1) = 511 - a.part (level + 1) := by omega
      rw [fillRest_of_not_last more, Linear.next_of_last full, fill, next, slots]
      exact .refl _
  | false =>
    have more : a.last (level + 1) = false := by simp [Linear.last, full]
    rw [fillRest_of_not_last full, fillRest_of_not_last more, Linear.next_of_not_last full]
    cases n with
    | zero =>
      obtain ⟨level, rfl⟩ : ∃ l, level = l + 1 := by
        apply Nat.exists_eq_succ_of_ne_zero
        rintro rfl
        cases full
      rw [fill_zero, fill_zero]
      simp only [andThen, fillSlots_done]
      exact .refl _
    | succ n =>
      -- the walk goes on below the same entry, and a new one goes through it again
      have slot := Linear.part_next (a := a) small
      have again : Concurs (.ok f, s) (s.descend (level + 1) table (a.next level)).value :=
        (Ready.descend (slot.symm ▸ ready)).symm
      rw [value_fill, slot, Linear.advance_next small]
      let behind (left : Nat) (t : Store) := (fillSlots (fill level) (level + 1) table
        (511 - a.part (level + 1)) t (a.advance (level + 1)) left).value
      apply again.andThen
        (k := fun f t => andThen (fill level t f (a.next level) (n + 1)).value behind)
      intro f s₁ s₁' same
      apply (concurs_fill level s₁ s₁' f _ _ (n + 1) same rfl).andThen
      intro left s₂ s₂' same
      exact concurs_fillSlots (fun s s' f a b n => concurs_fill level s s' f a b n) _ _ _ s₂ s₂' _ _
        left same rfl

/-- A run below a table is its first page, and then the rest from the next page on. -/
theorem fill_succ : ∀ (level : Nat), level ≤ 4 → ∀ (s : Store) (table : Nat) (a : Linear) (n : Nat),
    s.WellFormed level table → s.Bounded →
      Concurs (fill level s table a (n + 1)).value
        (andThen (fill level s table a 1).value fun _ t => fillRest level t table a n) := by
  intro level
  induction level with
  | zero => exact fun _ s table a n _ _ => .refl _
  | succ level ih =>
    intro small s table a n well bounded
    rw [value_fill, value_fill, andThen_assoc]
    apply concurs_andThen
    intro f s₁ went
    have ready := ready_descend well bounded went
    obtain ⟨first, linked⟩ := grown_descend well bounded a
    rw [went] at first linked
    have well₁ := first.wellFormed well
    have bounded₁ := first.bounded bounded
    have inner := well₁.below (linked f rfl)
    have below := ih (Nat.le_of_succ_le small) s₁ f a n inner bounded₁
    refine (below.andThen fun left t t' same => concurs_fillSlots
      (fun s s' f a b n => concurs_fill level s s' f a b n) (level + 1) table _ t t' _ _ left same
        rfl).trans ?_
    rw [andThen_assoc, andThen_assoc]
    apply concurs_andThen
    intro left s₂ filled
    -- nothing is left of the page, so the slots behind it are not touched
    obtain rfl := left_of_one inner bounded₁ filled
    have grown := grown_fill level s₁ f a 1 inner bounded₁
    rw [filled] at grown
    rw [fillSlots_done]
    exact concurs_fillRest small (ready.grown well₁ (linked f rfl) grown) n

/-- The rest of a run in a whole tree starts at the next page, unless that was the last one. -/
theorem concurs_fillRest_pages (t : Store) (root address n : Nat) :
    Concurs (fillRest 4 t root (.ofNat address) n)
      (if pageOf address + 1 = Linear.reach / frameBytes then (.ok n, t)
        else (fill 4 t root (.ofNat (address + frameBytes)) n).value) := by
  have top : (Linear.ofNat address).last 4 = true ↔ pageOf address + 1 = Linear.reach / frameBytes :=
    Linear.last_ofNat
  cases last : (Linear.ofNat address).last 4 with
  | true =>
    rw [fillRest_of_last last, if_pos (top.mp last)]
    exact .refl _
  | false =>
    rw [fillRest_of_not_last last, if_neg (by rw [← top, last]; exact Bool.noConfusion)]
    exact concurs_fill 4 t t root _ _ n (.refl t) (Linear.next_ofNat last)

/-- A run of pages in a whole tree is its first page, and then the rest from the next page on. -/
theorem fill_pages {root : Nat} (well : s.WellFormed 4 root) (bounded : s.Bounded)
    (address n : Nat) :
    Concurs (fill 4 s root (.ofNat address) (n + 1)).value
      (andThen (fill 4 s root (.ofNat address) 1).value fun _ t =>
        if pageOf address + 1 = Linear.reach / frameBytes then (.ok n, t)
        else (fill 4 t root (.ofNat (address + frameBytes)) n).value) := by
  apply (fill_succ 4 (Nat.le_refl 4) s root _ n well bounded).trans
  apply concurs_andThen
  intro _ t _
  exact concurs_fillRest_pages t root address n

end Store

end Nucleus
