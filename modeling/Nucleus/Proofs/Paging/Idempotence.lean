import Nucleus.Proofs.Paging.Progress

/-!
# Mapping again

A run that was mapped can be mapped again, whole or in part, and that changes nothing: all entries
on the way to its pages are there and open by then, so no frame is asked for and no bit is set that
was not set before.

* `Walked`: a path whose entries have all been gone through.
* `walked_of_filled`: the paths to the pages of a run that was mapped have been.
* `concurs_walked`: to go along them again comes to nothing, whatever is left of the allocator.
* `mapped_again`: both, for every run inside one that was mapped.
-/

namespace Nucleus
open Platform

/-- An entry that is there and open has nothing left to grow to. -/
theorem Entry.Grows.eq_of_opened {e e' : Entry} (grows : Entry.Grows e e')
    (present : e.present = true) (opened : e.opened = e) : e' = e := by
  cases grows with
  | same => rfl
  | opened => exact opened
  | made f => cases present

namespace Store
variable {s t : Store} {level table root address n left f : Nat} {i : Fin 512} {a : Linear}
  {p : List (Fin 512)}

/-! ## Paths that have been walked -/

/-- Every entry on a path from a table is there and open, and leads on to the next one. -/
def Walked (s : Store) : (level table : Nat) → (p : List (Fin 512)) → Prop
  | level + 1, table, i :: p => ∃ f, Ready (level + 1) table f i s ∧ s.Walked level f p
  | _, _, _ => True

theorem Ready.linked (ready : Ready (level + 1) table f i s) :
    s.memory.link? (level + 1) table i = some f := by
  have small : level = 0 ∨ (s.memory.entry table i).huge = false :=
    ready.small.imp_left fun last => Nat.le_zero.mp (Nat.le_of_succ_le_succ last)
  rw [Memory.link?_of_table ready.present small, ready.frame]

/-- However the tree grows, a path that has been walked is as it was. -/
theorem Walked.mono (walked : s.Walked level table p)
    (old : ∀ q g, s.memory.follow level table q = some g → q.length < level →
      ∀ i, Entry.Grows (s.memory.entry g i) (t.memory.entry g i)) :
    t.Walked level table p := by
  induction level generalizing table p with
  | zero => cases p <;> trivial
  | succ level ih =>
    cases p with
    | nil => trivial
    | cons i p =>
      obtain ⟨f, ready, below⟩ := walked
      have here := old [] table Memory.follow_nil (Nat.succ_pos level) i
      refine ⟨f, ready.congr (here.eq_of_opened ready.present ready.opened), ih below ?_⟩
      intro q g leads short
      exact old (i :: q) g ((Memory.follow_link ready.linked).trans leads) (Nat.succ_lt_succ short)

theorem Walked.congr (walked : s.Walked level table p)
    (same : ∀ g i, t.memory.entry g i = s.memory.entry g i) : t.Walked level table p :=
  walked.mono fun _ g _ _ i => same g i ▸ .same _

/-- The path to a page that was mapped has been walked. -/
theorem walked_of_page (well : s.WellFormed level table) (bounded : s.Bounded)
    (filled : (fill level s table a 1).value = (.ok left, t)) :
    t.Walked level table (a.path level) := by
  induction level generalizing s table with
  | zero => trivial
  | succ level ih =>
    rw [fill_through well bounded] at filled
    obtain ⟨grown, linked⟩ := grown_descend well bounded a
    cases went : (s.descend (level + 1) table a).value with
    | mk answer s₁ =>
      rw [went] at filled grown linked
      cases answer with
      | error e => cases filled
      | ok f =>
        have well₁ := grown.wellFormed well
        have inner := well₁.below (linked f rfl)
        have bounded₁ := grown.bounded bounded
        have later := grown_of_fill inner bounded₁ filled
        have ready := ready_descend well bounded went
        exact ⟨f, ready.grown well₁ (linked f rfl) later, ih inner bounded₁ filled⟩

/-- So have the paths to all pages of a run. -/
theorem walked_of_filled (well : s.WellFormed 4 root) (bounded : s.Bounded)
    (room : pageOf address + n ≤ pageCount)
    (filled : (fill 4 s root (.ofNat address) n).value = (.ok 0, t)) :
    ∀ k, k < n → t.Walked 4 root ((Linear.ofNat (address + k * frameBytes)).path 4) := by
  induction n generalizing t with
  | zero => exact fun k none => absurd none (Nat.not_lt_zero k)
  | succ n ih =>
    have here : pageOf address + n < pageCount := by omega
    obtain ⟨u, before, last⟩ := part_of_filled well bounded room filled
    have grown := grown_of_fill well bounded before
    rw [rest_of_room here] at last
    cases page : (fill 4 u root (.ofNat (address + n * frameBytes)) 1).value with
    | mk answer t' =>
      rw [page] at last
      cases last.answer
      have well₁ := grown.wellFormed well
      have bounded₁ := grown.bounded bounded
      have entries := last.store.symm.entry
      intro k small
      by_cases new : k = n
      · rw [new]
        exact (walked_of_page well₁ bounded₁ page).congr entries
      · -- the last page leaves alone what was walked for the pages before it
        have walked := ih (by omega) before k (by omega)
        exact (walked.mono (grown_of_fill well₁ bounded₁ page).old).congr entries

/-! ## Walking again -/

/-- The first page of a run has nothing to be done for it if its path has been walked. -/
theorem concurs_page (level : Nat) (small : level ≤ 4) (s : Store) (table : Nat) (a : Linear)
    (n : Nat) (walked : s.Walked level table (a.path level)) :
    Concurs (fill level s table a (n + 1)).value (fillRest level s table a n) := by
  induction level generalizing table with
  | zero => exact .refl _
  | succ level ih =>
    obtain ⟨f, ready, below⟩ := walked
    rw [value_fill]
    let behind (left : Nat) (t : Store) := (fillSlots (fill level) (level + 1) table
      (511 - a.part (level + 1)) t (a.advance (level + 1)) left).value
    let onward (f : Nat) (t : Store) := andThen (fill level t f a (n + 1)).value behind
    have spec (s s' : Store) (f : Nat) (a b : Linear) (n : Nat) := concurs_fill level s s' f a b n
    have through : Concurs (andThen (s.descend (level + 1) table a).value onward)
        (andThen (.ok f, s) onward) := by
      apply ready.descend.andThen
      intro f t t' same
      apply (spec t t' f a a (n + 1) same rfl).andThen
      intro left u u' same
      exact concurs_fillSlots spec _ _ _ u u' _ _ left same rfl
    have page : Concurs (andThen (fill level s f a (n + 1)).value behind)
        (andThen (fillRest level s f a n) behind) := by
      apply (ih (Nat.le_of_succ_le small) f below).andThen
      intro left t t' same
      exact concurs_fillSlots spec _ _ _ t t' _ _ left same rfl
    exact (through.trans page).trans (concurs_fillRest small ready n)

/-- A run along paths that have been walked comes to nothing. -/
theorem concurs_walked (n : Nat) : ∀ address, pageOf address + n ≤ pageCount →
    (∀ k, k < n → s.Walked 4 root ((Linear.ofNat (address + k * frameBytes)).path 4)) →
      Concurs (fill 4 s root (.ofNat address) n).value (.ok 0, s) := by
  induction n with
  | zero =>
    intro address _ _
    rw [fill_zero]
    exact .refl _
  | succ n ih =>
    intro address room walked
    have first := concurs_page 4 (Nat.le_refl 4) s root (.ofNat address) n
      (by simpa using walked 0 (Nat.succ_pos n))
    apply (first.trans (concurs_fillRest_pages s root address n)).trans
    by_cases full : pageOf address + 1 = Linear.reach / frameBytes
    · obtain rfl : n = 0 := by
        have : pageOf address + 1 = pageCount := full
        omega
      rw [if_pos full]
      exact .refl _
    · have more : pageOf address + 1 ≠ pageCount := full
      have next : pageOf (address + frameBytes) = pageOf address + 1 := by
        have here : pageOf address + 1 < pageCount := by omega
        simpa using pageOf_add (k := 1) here
      rw [if_neg full]
      apply ih (address + frameBytes) (by omega)
      intro k small
      have page : address + (k + 1) * frameBytes = address + frameBytes + k * frameBytes := by
        simp only [frameBytes]
        omega
      exact page ▸ walked (k + 1) (Nat.succ_lt_succ small)

/-- A run that was mapped has not passed the last page of all. -/
theorem filled_of_map (well : s.WellFormed 4 root) (bounded : s.Bounded)
    (mapped : (s.map root address n).value = (.ok (), t)) :
    pageOf address + n ≤ pageCount ∧
      (fill 4 s root (.ofNat address) n).value = (.ok 0, t) := by
  have filled : (fill 4 s root (.ofNat address) n).value = (.ok 0, t) := by
    rw [value_map] at mapped
    rcases answer : (fill 4 s root (.ofNat address) n).value with ⟨e | _ | left, u⟩ <;>
      rw [answer] at mapped <;> cases mapped
    rfl
  refine ⟨?_, filled⟩
  obtain ⟨k, u, within, -, ends⟩ := exists_end well bounded address n
  rw [filled] at ends
  cases ends with
  | done all _ => exact all ▸ within
  | past more _ same =>
    have left : n - k = 0 := Except.ok.inj same.answer.symm
    omega
  | stuck _ _ _ same => cases same.answer

/-- **Mapping again changes nothing.** If a run was mapped in a well-formed tree, then to map any
run inside it next succeeds and leaves every entry of every frame, and the allocator, exactly as
they are. The allocator does not matter even: it may have handed out frames to others in the
meantime, or have none left. -/
theorem mapped_again (s s' : Store) (root address n : Nat) (well : s.WellFormed 4 root)
    (bounded : s.Bounded) (mapped : (s.map root address n).value = (.ok (), s'))
    (address' j m : Nat) (start : pageOf address' = pageOf address + j) (inside : j + m ≤ n)
    (frames : Frames) :
    Concurs (.ok (), ⟨frames, s'.memory⟩)
      ((⟨frames, s'.memory⟩ : Store).map root address' m).value := by
  obtain ⟨room, filled⟩ := filled_of_map well bounded mapped
  have walked := walked_of_filled well bounded room filled
  have again : Concurs (fill 4 ⟨frames, s'.memory⟩ root (.ofNat address') m).value
      (.ok 0, ⟨frames, s'.memory⟩) := by
    apply concurs_walked m address' (by omega)
    intro k small
    have page : pageOf (address' + k * frameBytes) = pageOf (address + (j + k) * frameBytes) := by
      rw [pageOf_add (by omega), pageOf_add (by omega), start, Nat.add_assoc]
    rw [path_eq_iff.mpr page]
    exact (walked (j + k) (by omega)).congr fun _ _ => rfl
  rw [value_map]
  exact ⟨congrArg (outcome address') again.answer.symm, again.store.symm⟩

/-- The last two pages of a run into the next page table, mapped once more from the middle of the
first of them on. There is no free frame left, so they could not have been mapped anew. -/
theorem mapped_again_in_part :
    let s : Store := ⟨((Frames.full 1).release 0 16).mark 0 1,
      (Memory.filled (.ofNat 0x2003)).clear 0⟩
    let s' := (s.map 0 0x1fe000 3).value.2
    s.WellFormed 4 0 ∧ s.Bounded ∧ (s.map 0 0x1fe000 3).value = (.ok (), s') ∧
      pageOf 0x1ff123 = pageOf 0x1fe000 + 1 ∧ 1 + 2 ≤ 3 ∧
      Concurs (.ok (), ⟨.full 1, s'.memory⟩)
        ((⟨.full 1, s'.memory⟩ : Store).map 0 0x1ff123 2).value ∧
      ((⟨.full 1, s.memory⟩ : Store).map 0 0x1ff123 2).value.1 =
        .error (.alloc (.outOfMemory 1)) := by
  intro s s'
  have clear : ∀ i, s.memory.entry 0 i = .zero := fun i => by simp [s, Memory.entry_clear]
  have top : s.frames.isTaken 0 = true := by decide
  have well : s.WellFormed 4 0 := (Owned.start clear).wellFormed top
  have bounded : s.Bounded := by
    unfold Bounded
    decide
  have served : (s.map 0 0x1fe000 3).value.1 = .ok () := by
    simp only [s]
    decide +kernel
  have mapped : (s.map 0 0x1fe000 3).value = (.ok (), s') := Prod.ext served rfl
  have refused : ((⟨.full 1, s.memory⟩ : Store).map 0 0x1ff123 2).value.1 =
      .error (.alloc (.outOfMemory 1)) := by
    simp only [s]
    decide +kernel
  have start : pageOf 0x1ff123 = pageOf 0x1fe000 + 1 := by decide
  have again := mapped_again s s' 0 0x1fe000 3 well bounded mapped 0x1ff123 1 2 start
    (by decide) (.full 1)
  exact ⟨well, bounded, mapped, start, by decide, again, refused⟩

end Store

end Nucleus
