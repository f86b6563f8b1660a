import Nucleus.Proofs.Paging.Ownership
import Nucleus.Proofs.Paging.Pages

/-!
# How far a run gets

A run can be cut anywhere: it is its first pages and then the rest. So mapping a run in one call
comes to the same as one call for each page of it, and a run that fails does so at one page, after
all the pages before it have been mapped.

* `fill_add`: a run is its first `j` pages, and then the rest.
* `mapEach`, `map_each_page`: the pages of a run mapped one at a time.
* `Ends`, `exists_end`: how many pages of a run come to be mapped, and what stops it then.
-/

namespace Nucleus
open Platform

/-- The number of pages that the tables tell apart. -/
def pageCount : Nat := Linear.reach / frameBytes

theorem pageOf_lt (address : Nat) : pageOf address < pageCount := by
  simp only [pageOf, pageCount, Linear.reach, frameBytes]
  omega

/-- The page `k` places on, if there is one. -/
theorem pageOf_add {address k : Nat} (room : pageOf address + k < pageCount) :
    pageOf (address + k * frameBytes) = pageOf address + k := by
  simp only [pageOf, pageCount, Linear.reach, frameBytes] at *
  omega

namespace Store
variable {s t t' s' : Store} {level table root address j k n m left : Nat} {e : PagingError}

/-! ## Cutting a run -/

/-- Whatever came of a run, the tree has grown. -/
theorem grown_of_fill {a : Linear} {answer : Except PagingError Nat}
    (well : s.WellFormed level table) (bounded : s.Bounded)
    (filled : (fill level s table a n).value = (answer, t)) : Grown level table s t := by
  have grown := grown_fill level s table a n well bounded
  rwa [filled] at grown

/-- One page goes through one entry, and leaves nothing for the entries behind it. -/
theorem fill_through {a : Linear} (well : s.WellFormed (level + 1) table) (bounded : s.Bounded) :
    (fill (level + 1) s table a 1).value =
      andThen (s.descend (level + 1) table a).value fun f s₁ => (fill level s₁ f a 1).value := by
  obtain ⟨grown, linked⟩ := grown_descend well bounded a
  rw [value_fill]
  cases went : (s.descend (level + 1) table a).value with
  | mk answer s₁ =>
    rw [went] at grown linked
    cases answer with
    | error e => rfl
    | ok f =>
      have inner := (grown.wellFormed well).below (linked f rfl)
      cases filled : (fill level s₁ f a 1).value with
      | mk answer s₂ =>
        cases answer with
        | error e => simp [andThen, filled]
        | ok left =>
          obtain rfl := left_of_one inner (grown.bounded bounded) filled
          simp [andThen, filled, fillSlots_done]

/-- What becomes of the last `m` pages of a run once the `j` before them are mapped. Behind the last
page of all nothing more can be mapped. -/
def rest (t : Store) (root address j m : Nat) : Ending Nat :=
  if pageOf address + j = pageCount then (.ok m, t)
  else (fill 4 t root (.ofNat (address + j * frameBytes)) m).value

theorem rest_of_end (full : pageOf address + j = pageCount) (t : Store) (root m : Nat) :
    rest t root address j m = (.ok m, t) := if_pos full

theorem rest_of_room (room : pageOf address + j < pageCount) (t : Store) (root m : Nat) :
    rest t root address j m = (fill 4 t root (.ofNat (address + j * frameBytes)) m).value :=
  if_neg (Nat.ne_of_lt room)

theorem rest_next (room : pageOf address + 1 < pageCount) (t : Store) (root j m : Nat) :
    rest t root (address + frameBytes) j m = rest t root address (j + 1) m := by
  have next : pageOf (address + frameBytes) = pageOf address + 1 := by
    simpa using pageOf_add (k := 1) room
  have page : address + frameBytes + j * frameBytes = address + (j + 1) * frameBytes := by
    simp only [frameBytes]
    omega
  have count : pageOf address + 1 + j = pageOf address + (j + 1) := by omega
  simp [rest, next, page, count]

theorem concurs_rest (same : Coincides t t') (root address j m : Nat) :
    Concurs (rest t root address j m) (rest t' root address j m) := by
  unfold rest
  split
  · exact ⟨rfl, same⟩
  · exact concurs_fill 4 t t' root _ _ m same rfl

/-- A run is its first `j` pages, and then the rest. -/
theorem fill_add (j : Nat) : ∀ (s : Store) (address m : Nat), s.WellFormed 4 root → s.Bounded →
    pageOf address + j ≤ pageCount →
      Concurs (fill 4 s root (.ofNat address) (j + m)).value
        (andThen (fill 4 s root (.ofNat address) j).value fun _ t => rest t root address j m) := by
  induction j with
  | zero =>
    intro s address m _ _ _
    have here : pageOf address + 0 < pageCount := pageOf_lt address
    simpa [fill_zero, andThen, rest_of_room here] using Concurs.refl _
  | succ j ih =>
    intro s address m well bounded within
    have all := fill_pages well bounded address (j + m)
    have first := fill_pages well bounded address j
    have order : j + 1 + m = j + m + 1 := by omega
    have cut := first.andThen fun _ t t' same => concurs_rest same root address (j + 1) m
    rw [andThen_assoc] at cut
    rw [order]
    apply (all.trans _).trans cut.symm
    apply concurs_andThen
    intro left t page
    have grown := grown_of_fill well bounded page
    by_cases full : pageOf address + 1 = pageCount
    · -- the run has come to its end with this page
      obtain rfl : j = 0 := by omega
      have full' : pageOf address + 1 = Linear.reach / frameBytes := full
      simpa [full', andThen, rest_of_end full] using Concurs.refl _
    · have room : pageOf address + 1 < pageCount := by omega
      have more : ¬pageOf address + 1 = Linear.reach / frameBytes := full
      have next : pageOf (address + frameBytes) = pageOf address + 1 := by
        simpa using pageOf_add (k := 1) room
      have later := ih t (address + frameBytes) m (grown.wellFormed well) (grown.bounded bounded)
        (by omega)
      simpa [more, rest_next room] using later

/-- A page that cannot be mapped stops a run that starts with it. -/
theorem fill_error (well : s.WellFormed 4 root) (bounded : s.Bounded)
    (failed : (fill 4 s root (.ofNat address) 1).value = (.error e, s')) (m : Nat) :
    Concurs (fill 4 s root (.ofNat address) (m + 1)).value (.error e, s') := by
  have split := fill_pages well bounded address m
  rwa [failed] at split

/-- Nothing is left of a run that there is room for. -/
theorem left_of_room (well : s.WellFormed 4 root) (bounded : s.Bounded)
    (room : pageOf address + n ≤ pageCount)
    (filled : (fill 4 s root (.ofNat address) n).value = (.ok left, t)) : left = 0 := by
  cases n with
  | zero =>
    rw [fill_zero] at filled
    cases filled
    rfl
  | succ n =>
    -- the last page leaves nothing, and it is the last thing that is done
    have here : pageOf address + n < pageCount := by omega
    have split := fill_add n s address 1 well bounded (by omega)
    rw [filled] at split
    cases before : (fill 4 s root (.ofNat address) n).value with
    | mk answer u =>
      have grown := grown_of_fill well bounded before
      rw [before] at split
      cases answer with
      | error e => cases split.answer
      | ok left' =>
        simp only [andThen, rest_of_room here] at split
        cases page : (fill 4 u root (.ofNat (address + n * frameBytes)) 1).value with
        | mk answer t' =>
          rw [page] at split
          cases split.answer
          exact left_of_one (grown.wellFormed well) (grown.bounded bounded) page

/-- If a run is mapped, so are its first `j` pages by themselves, and then the rest. -/
theorem part_of_filled (well : s.WellFormed 4 root) (bounded : s.Bounded)
    (room : pageOf address + (j + m) ≤ pageCount)
    (filled : (fill 4 s root (.ofNat address) (j + m)).value = (.ok 0, t)) :
    ∃ u, (fill 4 s root (.ofNat address) j).value = (.ok 0, u) ∧
      Concurs (.ok 0, t) (rest u root address j m) := by
  have split := fill_add j s address m well bounded (by omega)
  rw [filled] at split
  cases before : (fill 4 s root (.ofNat address) j).value with
  | mk answer u =>
    rw [before] at split
    cases answer with
    | error e => cases split.answer
    | ok left =>
      obtain rfl := left_of_room well bounded (by omega) before
      exact ⟨u, rfl, split⟩

/-! ## One page at a time -/

/-- Map the `n` pages from the one at `address` on, one at a time and up to the first error. -/
def mapEach (s : Store) (root address : Nat) : (n : Nat) → Ending Unit
  | 0 => (.ok (), s)
  | n + 1 => andThen (s.mapEach root address n) fun _ t =>
      (t.map root (address + n * frameBytes) 1).value

/-- A run that there is room for is mapped if nothing stops it. -/
theorem value_map_of_room (well : s.WellFormed 4 root) (bounded : s.Bounded)
    (room : pageOf address + n ≤ pageCount) : (s.map root address n).value =
      andThen (fill 4 s root (.ofNat address) n).value fun _ t => (.ok (), t) := by
  rw [value_map]
  rcases filled : (fill 4 s root (.ofNat address) n).value with ⟨e | left, t⟩
  · rfl
  · obtain rfl := left_of_room well bounded room filled
    rfl

theorem concurs_map (same : Coincides s s') (root address n : Nat) :
    Concurs (s.map root address n).value (s'.map root address n).value := by
  have filled := concurs_fill 4 s s' root (.ofNat address) (.ofNat address) n same rfl
  rw [value_map, value_map]
  exact ⟨congrArg (outcome address) filled.answer, filled.store⟩

/-- **A run is mapped page by page.** As long as a run does not pass the last page of all, one call
for the whole of it gives the same answer as one call for each page, made in order and up to the
first error, and leaves the same entries in all frames and the same allocator. -/
theorem map_each_page (s : Store) (root address n : Nat) (well : s.WellFormed 4 root)
    (bounded : s.Bounded) (room : pageOf address + n ≤ pageCount) :
    Concurs (s.map root address n).value (s.mapEach root address n) := by
  induction n with
  | zero =>
    have none : (s.map root address 0).value = (.ok (), s) := by
      simp [value_map, fill_zero, outcome]
    rw [none]
    exact .refl _
  | succ n ih =>
    have here : pageOf address + n < pageCount := by omega
    have split := fill_add n s address 1 well bounded (by omega)
    have whole := split.andThen fun _ t t' same =>
      (⟨rfl, same⟩ : Concurs (Except.ok (), t) (.ok (), t'))
    have before := (ih (by omega)).andThen
      fun _ t t' same => concurs_map same root (address + n * frameBytes) 1
    rw [value_map_of_room well bounded (by omega), andThen_assoc] at before
    rw [value_map_of_room well bounded room]
    apply (whole.trans _).trans before
    rw [andThen_assoc]
    apply concurs_andThen
    intro left t filled
    have grown := grown_of_fill well bounded filled
    have page := pageOf_add here
    have single : pageOf (address + n * frameBytes) + 1 ≤ pageCount := by omega
    have one := value_map_of_room (grown.wellFormed well) (grown.bounded bounded) single
    simpa [andThen, one, rest_of_room here] using Concurs.refl _

/-- A run into the next page table. There are frames for two pages and the tables that they need,
and none for the third page. -/
theorem map_each_page_across_tables :
    let s : Store := ⟨((Frames.full 1).release 0 7).mark 0 1,
      (Memory.filled (.ofNat 0x2003)).clear 0⟩
    s.WellFormed 4 0 ∧ s.Bounded ∧ pageOf 0x1ff000 + 3 ≤ pageCount ∧
      Concurs (s.map 0 0x1ff000 3).value (s.mapEach 0 0x1ff000 3) ∧
      (s.mapEach 0 0x1ff000 2).1 = .ok () ∧
      (s.mapEach 0 0x1ff000 3).1 = .error (.alloc (.outOfMemory 1)) := by
  intro s
  have clear : ∀ i, s.memory.entry 0 i = .zero := fun i => by simp [s, Memory.entry_clear]
  have top : s.frames.isTaken 0 = true := by decide
  have well : s.WellFormed 4 0 := (Owned.start clear).wellFormed top
  have bounded : s.Bounded := by
    unfold Bounded
    decide
  have same := map_each_page s 0 0x1ff000 3 well bounded (by decide)
  have failed : (s.map 0 0x1ff000 3).value.1 = .error (.alloc (.outOfMemory 1)) := by
    simp only [s]
    decide +kernel
  have served : (s.mapEach 0 0x1ff000 2).1 = .ok () := by
    simp only [s]
    decide +kernel
  exact ⟨well, bounded, by decide, same, served, same.answer.trans failed⟩

/-! ## Where a run ends -/

/-- How a run of `n` pages ends, whose first `k` pages are mapped and have left `t`: that was all of
it, or it comes to the end of the last page of all, or the next page cannot be mapped. -/
inductive Ends (root address n k : Nat) (t : Store) (r : Ending Nat) : Prop where
  | done (all : k = n) (same : Concurs (.ok 0, t) r)
  | past (more : k < n) (full : pageOf address + k = pageCount) (same : Concurs (.ok (n - k), t) r)
  | stuck {e : PagingError} {s' : Store} (more : k < n) (room : pageOf address + k < pageCount)
      (failed : (fill 4 t root (.ofNat (address + k * frameBytes)) 1).value = (.error e, s'))
      (same : Concurs (.error e, s') r)

/-- Every run is mapped up to some page, where it ends. -/
theorem exists_end (well : s.WellFormed 4 root) (bounded : s.Bounded) (address n : Nat) :
    ∃ k t, pageOf address + k ≤ pageCount ∧ (fill 4 s root (.ofNat address) k).value = (.ok 0, t) ∧
      Ends root address n k t (fill 4 s root (.ofNat address) n).value := by
  induction n with
  | zero =>
    have here : pageOf address < pageCount := pageOf_lt address
    exact ⟨0, s, by omega, fill_zero _ _ _ _, .done rfl (by rw [fill_zero]; exact .refl _)⟩
  | succ n ih =>
    obtain ⟨k, t, within, filled, ends⟩ := ih
    -- whatever ended the shorter run, the longer one takes up after the same `k` pages
    have onward {m : Nat} (length : n + 1 = k + m) :
        Concurs (rest t root address k m) (fill 4 s root (.ofNat address) (n + 1)).value := by
      have split := fill_add k s address m well bounded within
      rw [filled] at split
      rw [length]
      exact split.symm
    cases ends with
    | past more full _ =>
      have later := onward (m := n + 1 - k) (by omega)
      rw [rest_of_end full] at later
      exact ⟨k, t, within, filled, .past (by omega) full later⟩
    | stuck more room failed _ =>
      have grown := grown_of_fill well bounded filled
      have later := onward (m := n - k + 1) (by omega)
      rw [rest_of_room room] at later
      have stopped := fill_error (grown.wellFormed well) (grown.bounded bounded) failed (n - k)
      exact ⟨k, t, within, filled, .stuck (by omega) room failed (stopped.symm.trans later)⟩
    | done all _ =>
      subst all
      have later := onward (m := 1) rfl
      by_cases full : pageOf address + k = pageCount
      · rw [rest_of_end full] at later
        exact ⟨k, t, within, filled, .past (by omega) full (by simpa using later)⟩
      · have room : pageOf address + k < pageCount := by omega
        rw [rest_of_room room] at later
        rcases page : (fill 4 t root (.ofNat (address + k * frameBytes)) 1).value with
          ⟨e | left, t'⟩ <;> rw [page] at later
        · exact ⟨k, t, within, filled, .stuck (by omega) room page later⟩
        · have grown := grown_of_fill well bounded filled
          obtain rfl := left_of_one (grown.wellFormed well) (grown.bounded bounded) page
          cases next : (fill 4 s root (.ofNat address) (k + 1)).value with
          | mk answer u =>
            rw [next] at later
            cases later.answer
            exact ⟨k + 1, u, by omega, next, .done rfl (.refl _)⟩

end Store

end Nucleus
