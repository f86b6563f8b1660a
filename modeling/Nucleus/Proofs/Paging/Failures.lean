import Nucleus.Proofs.Paging.Obstacles
import Nucleus.Proofs.Paging.Reclaim

/-!
# Failed runs

A run that cannot be mapped stops at one page. The pages before it are mapped, nothing else is
translated differently, and the error says what is wrong with that page. Whatever was taken from the
allocator hangs in the tree, and unmapping the slots that the run came to gives it back.

* `StoppedAt`: what the answer means, and what the tree is like then.
* `Linked`: what has become of the frames.
* `stopped_past`, `stopped_stuck`: the two ways to stop.
* `Grown.exists_hangs`, `Traced.slot`: new frames hang in the tree, below slots of the run.
* `failed_map_stops`: every run that fails stops like that.
-/

namespace Nucleus
open Platform

theorem Entry.Grows.frame {e e' : Entry} (grows : Entry.Grows e e') (present : e.present = true) :
    e'.frame = e.frame := by
  cases grows with
  | same => rfl
  | opened => rfl
  | made f => cases present

namespace Store
variable {s s' t u : Store} {level table root address j k n f : Nat} {e : PagingError}
  {A : List (Fin 512) → Prop}

/-! ## Where a run stops -/

/-- The run from `address` on could not be mapped because of its page `k`. Of the store before, `s`,
and the one after, `s'`, this says what became of the tree; `t` is what is left when only the pages
before are asked for. -/
structure StoppedAt (root address k : Nat) (s t s' : Store) (e : PagingError) : Prop where
  within : pageOf address + k ≤ pageCount
  /-- The pages before it can be mapped, and they are as if no more had been asked for. -/
  before : (s.map root address k).value = (.ok (), t)
  same : ∀ b, s'.memory.translate root b = t.memory.translate root b
  leaves : ∀ p g i, Leaf 4 root p g i t → s'.memory.entry g i = t.memory.entry g i
  /-- The page itself and all addresses that are not in those pages are translated as before. -/
  beside : ∀ b, ¬InRun address k b → s'.memory.translate root b = s.memory.translate root b
  /-- There is no such page. -/
  range : e = .outOfRange address ↔ pageOf address + k = pageCount
  /-- The page is the first that a large page covers. -/
  large : e = .hugePage (Linear.ofNat (address + k * frameBytes)).canonical.toNat ↔
    pageOf address + k < pageCount ∧
      s.memory.covered (.ofNat (address + k * frameBytes)) 4 root = true ∧
      ∀ j, j < k → s.memory.covered (.ofNat (address + j * frameBytes)) 4 root = false
  /-- The page is short of more frames than there are left. -/
  memory : e = .alloc (.outOfMemory 1) ↔ pageOf address + k < pageCount ∧
    t.frames.available < t.memory.missing (.ofNat (address + k * frameBytes)) 4 root
  cause : e = .outOfRange address ∨
    e = .hugePage (Linear.ofNat (address + k * frameBytes)).canonical.toNat ∨
    e = .alloc (.outOfMemory 1)

/-- What became of the frames that were taken between `s` and `s'`: they are in the tree, and
unmapping the slots of the pages up to page `k` gives them back. -/
structure Linked (root address k : Nat) (s s' : Store) : Prop where
  linked : ∀ f, s'.frames.isTaken f = true → s.frames.isTaken f = false →
    ∃ p, s'.memory.follow 4 root p = some f
  returned : ∀ bs : List Nat, (∀ j, j ≤ k → pageOf address + j < pageCount →
      ∃ b ∈ bs, (Linear.ofNat b).part 4 = (Linear.ofNat (address + j * frameBytes)).part 4) →
    ∀ f, s'.frames.isTaken f = true → s.frames.isTaken f = false →
      (bs.foldl (fun s b => s.unmap root b) s').frames.isTaken f = false

/-- What a mapped run consists of: each page can be mapped after the ones before it. -/
theorem page_of_filled (well : s.WellFormed 4 root) (bounded : s.Bounded)
    (within : pageOf address + k ≤ pageCount)
    (filled : (fill 4 s root (.ofNat address) k).value = (.ok 0, t)) (small : j < k) :
    ∃ u, (fill 4 s root (.ofNat address) j).value = (.ok 0, u) ∧
      (fill 4 u root (.ofNat (address + j * frameBytes)) 1).value.1 = .ok 0 := by
  obtain ⟨d, rfl⟩ : ∃ d, k = j + (d + 1) := ⟨k - j - 1, by omega⟩
  have room : pageOf address + j < pageCount := by omega
  obtain ⟨u, before, last⟩ := part_of_filled well bounded within filled
  have grown := grown_of_fill well bounded before
  have well₁ := grown.wellFormed well
  have bounded₁ := grown.bounded bounded
  rw [rest_of_room room] at last
  cases page : (fill 4 u root (.ofNat (address + j * frameBytes)) 1).value with
  | mk answer u' =>
    cases answer with
    | error e => cases (last.trans (fill_error well₁ bounded₁ page d)).answer
    | ok left =>
      obtain rfl := left_of_one well₁ bounded₁ page
      exact ⟨u, before, by rw [page]⟩

/-- No large page covers a page that can be mapped. -/
theorem uncovered_of_filled (well : s.WellFormed 4 root) (bounded : s.Bounded)
    (within : pageOf address + k ≤ pageCount)
    (filled : (fill 4 s root (.ofNat address) k).value = (.ok 0, t)) (small : j < k) :
    s.memory.covered (.ofNat (address + j * frameBytes)) 4 root = false := by
  obtain ⟨u, before, page⟩ := page_of_filled well bounded within filled small
  have grown := grown_of_fill well bounded before
  have answer := answer_one (grown.wellFormed well) (grown.bounded bounded)
    (a := .ofNat (address + j * frameBytes))
  rw [page] at answer
  rw [← grown.covered_eq well, ← Bool.not_eq_true]
  intro covered
  rw [if_pos covered] at answer
  cases answer

theorem Coincides.translate_eq (same : Coincides s s') (root b : Nat) :
    s'.memory.translate root b = s.memory.translate root b :=
  Memory.walk_congr (Entry.alike_of_eq (same.entry _ _)) fun _ g _ j =>
    Entry.alike_of_eq (same.entry g j)

section
variable (well : s.WellFormed 4 root) (bounded : s.Bounded)
  (within : pageOf address + k ≤ pageCount)
  (filled : (fill 4 s root (.ofNat address) k).value = (.ok 0, t))
include well bounded within filled

theorem map_of_filled : (s.map root address k).value = (.ok (), t) := by
  rw [value_map_of_room well bounded within, filled]
  rfl

/-- The run ends with the last page of all. -/
theorem stopped_past (full : pageOf address + k = pageCount) (same : Coincides t s') :
    StoppedAt root address k s t s' (.outOfRange address) := by
  have backed := runBacked_fill k s t address well bounded filled
  constructor
  case within => exact within
  case before => exact map_of_filled well bounded within filled
  case same => exact same.translate_eq root
  case leaves => exact fun p g i _ => same.entry g i
  case beside => exact fun b outside => (same.translate_eq root b).trans (backed.beside b outside)
  case range => simp [full]
  case large => simp [full]
  case memory => simp [full]
  case cause => exact .inl rfl

/-- The next page cannot be mapped. -/
theorem stopped_stuck (room : pageOf address + k < pageCount)
    (failed : (fill 4 t root (.ofNat (address + k * frameBytes)) 1).value = (.error e, u))
    (same : Coincides u s') : StoppedAt root address k s t s' e := by
  have grown := grown_of_fill well bounded filled
  have well₁ := grown.wellFormed well
  have bounded₁ := grown.bounded bounded
  have backed := runBacked_fill k s t address well bounded filled
  have page := onePage_fill 3 t root (.ofNat (address + k * frameBytes)) well₁ bounded₁
  have leaves := opens_one well₁ bounded₁ (.ofNat (address + k * frameBytes))
  have cause := cause_of_failed well₁ bounded₁ (congrArg Prod.fst failed)
  rw [failed] at page leaves
  rw [grown.covered_eq well] at cause
  have translate (b : Nat) : s'.memory.translate root b = t.memory.translate root b :=
    (same.translate_eq root b).trans (page.2 (.ofNat b))
  have inner : pageOf address + k ≠ pageCount := Nat.ne_of_lt room
  have uncovered (j : Nat) (small : j < k) :
      s.memory.covered (.ofNat (address + j * frameBytes)) 4 root = false :=
    uncovered_of_filled well bounded within filled small
  constructor
  case within => exact within
  case before => exact map_of_filled well bounded within filled
  case same => exact translate
  case leaves => exact fun p g i leaf => (same.entry g i).trans (leaves.kept p g i leaf id)
  case beside => exact fun b outside => (translate b).trans (backed.beside b outside)
  case range => obtain ⟨rfl, -, -⟩ | ⟨rfl, -, -⟩ := cause <;> simp [inner]
  case large =>
    obtain ⟨rfl, covered, -⟩ | ⟨rfl, open', -⟩ := cause
    · simpa [room, covered] using uncovered
    · simp [open']
  case memory =>
    obtain ⟨rfl, -, nothing⟩ | ⟨rfl, -, short⟩ := cause
    · simp [nothing]
    · simp [room, short]
  case cause =>
    obtain ⟨rfl, -, -⟩ | ⟨rfl, -, -⟩ := cause
    · exact .inr (.inl rfl)
    · exact .inr (.inr rfl)

end

/-! ## What becomes of the frames -/

/-- What is taken while a tree grows hangs in it. -/
theorem Grown.exists_hangs (grown : Grown level table s s') (well : s.WellFormed level table)
    (taken : s'.frames.isTaken f = true) (new : s.frames.isTaken f = false) :
    ∃ q g j, Hangs level table q g j f s' := by
  obtain before | ⟨p, leads⟩ := (grown.taken f).mp taken
  · rw [new] at before
    cases before
  obtain rfl | ⟨q, j, rfl⟩ := List.eq_nil_or_concat' p
  · obtain rfl : table = f := by simpa using leads
    exact absurd new (well.not_free Memory.follow_nil)
  obtain ⟨g, above, short, linked⟩ := Memory.follow_concat.mp leads
  obtain ⟨present, table', frame⟩ := Memory.link?_eq_some.mp linked
  have small : (s'.memory.entry g j).huge = false := by
    obtain before | free := grown.fresh q g above
    · have grows := grown.old q g before short j
      cases there : (s.memory.entry g j).present with
      | false =>
        rw [grows.huge, well.absent q g before short j there]
        rfl
      | true =>
        -- then the frame would have been in the tree before
        have linked' : s.memory.link? (level - q.length) g j = some f := by
          rw [grows.frame there] at frame
          rw [Entry.large, grows.huge] at table'
          exact Memory.link?_eq_some.mpr ⟨there, table', frame⟩
        exact absurd new (well.not_free (Memory.follow_concat.mpr ⟨g, before, short, linked'⟩))
    · rw [(grown.new q g above free j).1.huge]
      rfl
  exact ⟨q, g, j, above, short, present, small, frame⟩

/-- What is taken on the way along some paths hangs below a slot that one of them goes through. -/
theorem Traced.slot (traced : Traced A 4 root s s') (well : s.WellFormed 4 root)
    (new : s.frames.isTaken f = false) {i : Fin 512} {rest : List (Fin 512)}
    (leads : s'.memory.follow 4 root (i :: rest) = some f) : ∃ p, A (i :: p) := by
  by_cases through : ∃ p, A (i :: p)
  · exact through
  exfalso
  -- otherwise nothing below the slot was written to, and the frame was there before
  have top : s'.memory.entry root i = s.memory.entry root i := by
    obtain same | ⟨q, back, p, along, rest', rfl⟩ | ⟨free, -⟩ := traced root i
    · exact same
    · obtain rfl := well.unique q [] root back Memory.follow_nil
      exact absurd ⟨rest', along⟩ through
    · exact absurd free (well.not_free (p := []) Memory.follow_nil)
  have below : ∀ p g, s.memory.follow 4 root (i :: p) = some g →
      ∀ l, s'.memory.entry g l = s.memory.entry g l := by
    intro p g inside l
    obtain same | ⟨q, back, p', along, rest', rfl⟩ | ⟨free, -⟩ := traced g l
    · exact same
    · obtain rfl := well.unique q (i :: p) g back inside
      exact absurd ⟨_, along⟩ through
    · exact absurd free (well.not_free inside)
  rw [Memory.follow_slot top below] at leads
  exact absurd new (well.not_free leads)

theorem Traced.congr (traced : Traced A level table s t) (same : Coincides t u) :
    Traced A level table s u := by
  intro g i
  rw [same.entry, same.frames]
  exact traced g i

/-- Whatever ends a run, it has written along the paths of its pages only, and only as far as there
are such pages. -/
theorem Ends.traced {r : Ending Nat} (ends : Ends root address n k t r) (well : s.WellFormed 4 root)
    (bounded : s.Bounded) (within : pageOf address + k ≤ pageCount)
    (filled : (fill 4 s root (.ofNat address) k).value = (.ok 0, t)) :
    ∃ m, Traced (RunPath address m) 4 root s r.2 ∧
      ∀ j, j < m → j < n ∧ j ≤ k ∧ pageOf address + j < pageCount := by
  have backed := runBacked_fill k s t address well bounded filled
  cases ends with
  | done all same => exact ⟨k, (backed.congr same.store).traced, fun j small => by omega⟩
  | past more _ same => exact ⟨k, (backed.congr same.store).traced, fun j small => by omega⟩
  | stuck more room stuck same =>
    have first := grown_of_fill well bounded filled
    have second := grown_of_fill (first.wellFormed well) (first.bounded bounded) stuck
    have page := traced_fill_one 4 t root (.ofNat (address + k * frameBytes))
      (first.wellFormed well) (first.bounded bounded)
    rw [stuck] at page
    have both := (backed.traced.mono fun p path => runPath_succ.mpr (.inl path)).trans
      (page.mono fun p path => runPath_succ.mpr (.inr path)) first second
    exact ⟨k + 1, both.congr same.store, fun j small => by omega⟩

/-- Mapping writes along the paths of its pages only. -/
theorem traced_map (well : s.WellFormed 4 root) (bounded : s.Bounded) (address n : Nat) :
    ∃ m, Traced (RunPath address m) 4 root s (s.map root address n).value.2 ∧
      ∀ j, j < m → j < n ∧ pageOf address + j < pageCount := by
  obtain ⟨k, t, within, filled, ends⟩ := exists_end well bounded address n
  obtain ⟨m, traced, among⟩ := ends.traced well bounded within filled
  rw [value_map]
  exact ⟨m, traced, fun j small => ⟨(among j small).1, (among j small).2.2⟩⟩

theorem linked_of_traced (well : s.WellFormed 4 root) (grown : Grown 4 root s s')
    (traced : Traced (RunPath address n) 4 root s s')
    (among : ∀ j, j < n → j ≤ k ∧ pageOf address + j < pageCount) :
    Linked root address k s s' := by
  constructor
  case linked =>
    intro f taken new
    obtain before | linked := (grown.taken f).mp taken
    · rw [new] at before
      cases before
    · exact linked
  case returned =>
    intro bs covers f taken new
    obtain ⟨q, g, j, hangs⟩ := grown.exists_hangs well taken new
    obtain ⟨i, rest, first⟩ := List.exists_cons_of_ne_nil (l := q ++ [j]) (by simp)
    obtain ⟨p, along⟩ := traced.slot well new (first ▸ hangs.follow)
    obtain ⟨j', small, path⟩ := runPath_iff.mp along
    obtain ⟨b, listed, slot⟩ := covers j' (among j' small).1 (among j' small).2
    have head : i = (Linear.ofNat (address + j' * frameBytes)).part 4 := (List.cons.inj path).1
    have known : f < s'.frames.capacity := grown.capacity ▸ Frames.lt_capacity_of_free new
    exact unmaps_free bs s' (grown.wellFormed well).unique hangs known first
      ⟨b, listed, slot.trans head.symm⟩

/-- **A failed run stops at one page.** If a run cannot be mapped in a well-formed tree, there is a
page of it that is to blame. The pages before it are mapped just as when only they are asked for,
and no other address is translated differently. The run is answered as out of range if, and only
if, there is no such page; with a large page in the way if, and only if, the page is the first that
one covers; and by a lack of memory if, and only if, the page is short of more frames than are left.
All frames that were taken are in the tree, and unmapping the slots of the run gives them back. -/
theorem failed_map_stops (s s' : Store) (root address n : Nat) (e : PagingError)
    (well : s.WellFormed 4 root) (bounded : s.Bounded)
    (failed : (s.map root address n).value = (.error e, s')) :
    ∃ k t, k < n ∧ StoppedAt root address k s t s' e ∧ Linked root address k s s' := by
  obtain ⟨k, t, within, filled, ends⟩ := exists_end well bounded address n
  obtain ⟨m, traced, among⟩ := ends.traced well bounded within filled
  have grown := grown_map well bounded address n
  rw [failed] at grown
  rw [value_map] at failed
  cases run : (fill 4 s root (.ofNat address) n).value with
  | mk answer s'' =>
    rw [run] at failed ends traced
    obtain rfl : s'' = s' := congrArg Prod.snd failed
    have told : outcome address answer = .error e := congrArg Prod.fst failed
    refine ⟨k, t, ?_⟩
    have linked := linked_of_traced well grown traced fun j small => (among j small).2
    cases ends with
    | done _ same =>
      cases same.answer
      cases told
    | past more full same =>
      cases same.answer
      obtain ⟨d, left⟩ : ∃ d, n - k = d + 1 := ⟨n - k - 1, by omega⟩
      rw [left] at told
      cases told
      exact ⟨more, stopped_past well bounded within filled full same.store, linked⟩
    | stuck more room stuck same =>
      cases same.answer
      cases told
      exact ⟨more, stopped_stuck well bounded within filled room stuck same.store, linked⟩

/-- A run into the next page table. There are frames for two pages and the tables that they need,
and none for the third page. All of them come back when the slot is unmapped. -/
theorem failed_map_stops_for_memory :
    let s : Store := ⟨((Frames.full 1).release 0 7).mark 0 1,
      (Memory.filled (.ofNat 0x2003)).clear 0⟩
    let s' := (s.map 0 0x1ff000 3).value.2
    s.WellFormed 4 0 ∧ s.Bounded ∧
      (s.map 0 0x1ff000 3).value = (.error (.alloc (.outOfMemory 1)), s') ∧
      (∃ k t, k < 3 ∧ StoppedAt 0 0x1ff000 k s t s' (.alloc (.outOfMemory 1)) ∧
        Linked 0 0x1ff000 k s s') ∧
      s'.frames.isTaken 6 = true ∧ (s'.unmap 0 0x1ff000).frames.isTaken 6 = false := by
  intro s s'
  have clear : ∀ i, s.memory.entry 0 i = .zero := fun i => by simp [s, Memory.entry_clear]
  have top : s.frames.isTaken 0 = true := by decide
  have well : s.WellFormed 4 0 := (Owned.start clear).wellFormed top
  have bounded : s.Bounded := by
    unfold Bounded
    decide
  have told : (s.map 0 0x1ff000 3).value.1 = .error (.alloc (.outOfMemory 1)) := by
    simp only [s]
    decide +kernel
  have taken : s'.frames.isTaken 6 = true := by
    simp only [s', s]
    decide +kernel
  have failed : (s.map 0 0x1ff000 3).value = (.error (.alloc (.outOfMemory 1)), s') :=
    Prod.ext told rfl
  obtain ⟨k, t, small, stopped, linked⟩ := failed_map_stops s s' 0 0x1ff000 3 _ well bounded failed
  have slot (j : Nat) (le : j ≤ k) :
      (Linear.ofNat 0x1ff000).part 4 = (Linear.ofNat (0x1ff000 + j * frameBytes)).part 4 := by
    simp only [Linear.part, Linear.ofNat, Fin.ext_iff, Fin.ofNat, frameBytes]
    omega
  have back := linked.returned [0x1ff000] (fun j le _ => ⟨_, List.mem_singleton_self _, slot j le⟩)
    6 taken (by decide)
  exact ⟨well, bounded, failed, ⟨k, t, small, stopped, linked⟩, taken, back⟩

end Store

end Nucleus
