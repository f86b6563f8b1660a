import Nucleus.Proofs.Heap.Carving

/-!
# Headers

A free block begins with its header. Whoever links a block into the list, or takes one off it,
writes the header of the block before it, where the walk met one; the list's own lies elsewhere.
Here the operations note what they write, and come to the same.

* `Noted.insert`, `Noted.allocate`, `Noted.reallocate`: the operations, with the headers they write.
* `value_insert`, `erase_allocate`, `erase_reallocate`: without the notes they are the operations.
* `holdsHeader_allocate`, `holdsHeader_deallocate`: headers are written to free blocks only.
-/

namespace Nucleus.FreeList

/-- What an operation comes to, and where the headers lie that it writes on the way. A header that
is written again as two blocks are joined is noted once. -/
structure Noted (α : Type) where
  value : α
  headers : List Nat

namespace Noted

/-- Behind the block at `met`, if the walk met one. -/
def insert (b : Block) (met : Option Nat) : List Block → Noted (List Block)
  | [] => ⟨[b], b.start :: met.toList⟩
  | c :: cs =>
    if c.start < b.start then
      let rest := insert b (some c.start) cs
      ⟨attach c rest.value, rest.headers⟩
    else ⟨attach b (c :: cs), b.start :: met.toList⟩

/-- The search also answers with the block that it met last. -/
def find (size align : Nat) (met : Option Nat) :
    List Block → Except Panic (Option (Option Nat × Nat × Block × List Block))
  | [] => pure none
  | b :: bs => do
    match ← place? b size align with
    | some p => pure (some (met, p, b, bs))
    | none =>
      match ← find size align (some b.start) bs with
      | some (met, p, c, cs) => pure (some (met, p, c, b :: cs))
      | none => pure none

def insertBetween (p q : Nat) (bs : List Block) : Noted (List Block) :=
  if p < q then insert ⟨p, q - p⟩ none bs else ⟨bs, []⟩

def putBack (b : Block) (p q : Nat) (bs : List Block) : Noted (List Block) :=
  let front := insertBetween b.start p bs
  let back := insertBetween q b.stop front.value
  ⟨back.value, front.headers ++ back.headers⟩

def allocate (l : FreeList) (size align : Nat) : Except Panic (Noted (Option Nat × FreeList)) := do
  let size ← blockSize? size
  match ← find size (max align granule) none l.blocks with
  | none => pure ⟨(none, l), []⟩
  | some (met, p, b, bs) =>
    let left := putBack b p (p + size) bs
    pure ⟨(some p, { l with blocks := left.value }), met.toList ++ left.headers⟩

def deallocate (l : FreeList) (address : Option Nat) (size : Nat) :
    Except Panic (Noted FreeList) := do
  match address with
  | none => pure ⟨l, []⟩
  | some p =>
    let size ← blockSize? size
    let left := insert ⟨p, size⟩ none l.blocks
    pure ⟨{ l with blocks := left.value }, left.headers⟩

def init (l : FreeList) (start size : Nat) : Except Panic (Noted FreeList) := do
  let first ← alignUp? start granule
  let left := insertBetween first (alignDown (Word.satAdd start size) granule) l.blocks
  pure ⟨⟨left.value, true⟩, left.headers⟩

def serve (l : FreeList) (size align : Nat) : Except Panic (Noted (Option Nat × FreeList)) :=
  if l.ready then allocate l size align else pure ⟨(none, l), []⟩

def reallocate (l : FreeList) (address size align newSize : Nat) :
    Except Panic (Noted (Option Nat × FreeList)) := do
  match ← serve l newSize align with
  | ⟨(none, l), ws⟩ => pure ⟨(none, l), ws⟩
  | ⟨(some q, l), ws⟩ => do
    let freed ← deallocate l (some address) size
    pure ⟨(some q, freed.value), ws ++ freed.headers⟩

end Noted

open Noted (value headers)
variable {b : Block} {bs : List Block} {l l' : FreeList} {p q w : Nat}

/-! ## Without the notes -/

@[simp] theorem value_insert (b : Block) (met : Option Nat) (bs : List Block) :
    (Noted.insert b met bs).value = insert b bs := by
  induction bs generalizing met with
  | nil => rfl
  | cons c cs ih =>
    rw [Noted.insert, insert]
    split
    · exact congrArg (attach c) (ih _)
    · rfl

@[simp] theorem value_insertBetween (p q : Nat) (bs : List Block) :
    (Noted.insertBetween p q bs).value = insertBetween p q bs := by
  rw [Noted.insertBetween, insertBetween]
  split
  · exact value_insert _ _ _
  · rfl

@[simp] theorem value_putBack (b : Block) (p q : Nat) (bs : List Block) :
    (Noted.putBack b p q bs).value = putBack b p q bs := by
  simp only [Noted.putBack, value_insertBetween, putBack_eq]

theorem erase_find (size align : Nat) (met : Option Nat) (bs : List Block) :
    (Noted.find size align met bs).map (Option.map Prod.snd) = find? size align bs := by
  induction bs generalizing met with
  | nil => rfl
  | cons b bs ih =>
    rw [Noted.find, find?, ← ih (some b.start)]
    rcases place? b size align with _ | _ | p
    · rfl
    · rcases Noted.find size align (some b.start) bs with _ | _ | _ <;> rfl
    · rfl

theorem erase_allocate (l : FreeList) (size align : Nat) :
    (Noted.allocate l size align).map value = l.allocate size align := by
  rw [Noted.allocate, allocate]
  cases blockSize? size with
  | error e => rfl
  | ok n =>
    simp only [bind, Except.bind, ← erase_find n (max align granule) none l.blocks]
    rcases Noted.find n (max align granule) none l.blocks with _ | _ | ⟨met, p, b, bs⟩
    · rfl
    · rfl
    · simp [Except.map, pure, Except.pure]

theorem erase_deallocate (l : FreeList) (address : Option Nat) (size : Nat) :
    (Noted.deallocate l address size).map value = l.deallocate address size := by
  cases address with
  | none => rfl
  | some p =>
    rw [Noted.deallocate, deallocate]
    cases blockSize? size with
    | error e => rfl
    | ok n => simp [bind, Except.bind, Except.map, pure, Except.pure]

theorem erase_init (l : FreeList) (start size : Nat) :
    (Noted.init l start size).map value = l.init start size := by
  rw [Noted.init, init]
  cases alignUp? start granule with
  | error e => rfl
  | ok first => simp [bind, Except.bind, Except.map, pure, Except.pure, insertBetween]

theorem erase_serve (l : FreeList) (size align : Nat) :
    (Noted.serve l size align).map value = l.serve size align := by
  rw [Noted.serve, serve]
  split
  · exact erase_allocate l size align
  · rfl

theorem erase_reallocate (l : FreeList) (address size align newSize : Nat) :
    (Noted.reallocate l address size align newSize).map value =
      l.reallocate address size align newSize := by
  rw [Noted.reallocate, reallocate, ← erase_serve]
  rcases Noted.serve l newSize align with _ | ⟨⟨_ | q, l⟩, ws⟩
  · rfl
  · rfl
  · simp only [bind, Except.bind, Except.map, ← erase_deallocate]
    cases Noted.deallocate l (some address) size <;> rfl

theorem exists_noted {α : Type} {x : Except Panic (Noted α)} {a : α}
    (done : x.map value = .ok a) : ∃ ws, x = .ok ⟨a, ws⟩ := by
  cases x with
  | error e => cases done
  | ok r =>
    cases done
    exact ⟨r.headers, rfl⟩

/-! ## Headers lie in free blocks -/

theorem holdsHeader_insertBetween (held : HoldsHeader bs w) :
    HoldsHeader (insertBetween p q bs) w := by
  rw [insertBetween]
  split
  · exact holdsHeader_insert held.cons
  · exact held

/-- A walk writes the header of the new block, and that of the last one it met. -/
theorem mem_headers_insert {met : Option Nat} (here : w ∈ (Noted.insert b met bs).headers) :
    w = b.start ∨ met = some w ∨ ∃ c ∈ bs, w = c.start := by
  have arrived {met : Option Nat} (here : w ∈ b.start :: met.toList) :
      w = b.start ∨ met = some w := by simpa [eq_comm] using here
  induction bs generalizing met with
  | nil => exact (arrived here).imp_right .inl
  | cons c cs ih =>
    rw [Noted.insert] at here
    split at here
    · rcases ih here with new | first | ⟨d, later, same⟩
      · exact .inl new
      · exact .inr (.inr ⟨c, .head cs, (Option.some.inj first).symm⟩)
      · exact .inr (.inr ⟨d, .tail c later, same⟩)
    · exact (arrived here).imp_right .inl

theorem holdsHeader_headers_insert (whole : b.Whole) (tidy : Tidy bs)
    (here : w ∈ (Noted.insert b none bs).headers) : HoldsHeader (insert b bs) w := by
  apply holdsHeader_insert
  rcases mem_headers_insert here with rfl | ⟨⟨⟩⟩ | ⟨c, listed, rfl⟩
  · exact ⟨b, .head bs, Nat.le_refl _, Nat.add_le_add_left whole.granule_le _⟩
  · exact (tidy.holdsHeader listed).cons

theorem holdsHeader_headers_insertBetween (whole : granule ∣ p) (whole' : granule ∣ q)
    (tidy : Tidy bs) (here : w ∈ (Noted.insertBetween p q bs).headers) :
    HoldsHeader (insertBetween p q bs) w := by
  unfold Noted.insertBetween at here
  unfold insertBetween
  split at here
  · next some =>
    rw [if_pos some]
    exact holdsHeader_headers_insert (.between some whole whole') tidy here
  · cases here

section
variable {front back : List Block}

/-- No header is written to the bytes that are cut out. -/
theorem holdsHeader_headers_putBack (tidy : Tidy (front ++ b :: back)) (start : b.start ≤ p)
    (less : p < q) (stop : q ≤ b.stop) (whole : granule ∣ p) (whole' : granule ∣ q)
    (here : w ∈ (Noted.putBack b p q (front ++ back)).headers) :
    HoldsHeader (putBack b p q (front ++ back)) w := by
  obtain ⟨ok, rest⟩ := tidy.middle
  obtain ⟨gap, -⟩ := tidy_putBack tidy start less stop whole whole'
  rw [putBack_eq]
  rcases List.mem_append.mp here with first | last
  · exact holdsHeader_insertBetween (holdsHeader_headers_insertBetween ok.start whole rest first)
  · rw [value_insertBetween] at last
    exact holdsHeader_headers_insertBetween whole' ok.stop gap last

end

/-- The block that a search met last is not the one that it found. -/
theorem mem_of_find {size align : Nat} {met last : Option Nat} {rest : List Block}
    (found : Noted.find size align met bs = .ok (some (last, p, b, rest))) :
    last = met ∨ ∃ c ∈ rest, last = some c.start := by
  induction bs generalizing met rest with
  | nil => cases found
  | cons c bs ih =>
    rw [Noted.find] at found
    rcases placed : place? c size align with _ | _ | q
    · rw [placed] at found
      cases found
    · rw [placed] at found
      simp only [bind, Except.bind] at found
      rcases later : Noted.find size align (some c.start) bs with _ | _ | ⟨last, p, d, ds⟩
      · rw [later] at found
        cases found
      · rw [later] at found
        cases found
      · rw [later] at found
        cases found
        rcases ih later with rfl | ⟨e, listed, same⟩
        · exact .inr ⟨c, .head ds, rfl⟩
        · exact .inr ⟨e, .tail c listed, same⟩
    · rw [placed] at found
      cases found
      exact .inl rfl

theorem holdsHeader_init {start size : Nat} {ws : List Nat}
    (done : Noted.init empty start size = .ok ⟨l, ws⟩) : ∀ w ∈ ws, HoldsHeader l.blocks w := by
  rw [Noted.init, alignUp?] at done
  cases summed : Word.add? start (granule - 1) with
  | error e =>
    rw [summed] at done
    cases done
  | ok s =>
    rw [summed] at done
    cases done
    intro w here
    rw [value_insertBetween]
    rw [alignDown_granule, alignDown_granule] at here ⊢
    exact holdsHeader_headers_insertBetween (Nat.dvd_mul_left _ _) (Nat.dvd_mul_left _ _) .nil here

/-- A request finds what it is given room in. -/
theorem noted_find {size k : Nat} {bs : List Block} (low : ∀ b ∈ bs, b.stop ≤ 2 ^ 63)
    (power : 2 ^ k ≤ 2 ^ 63) {r : Option (Option Nat × Nat × Block × List Block)}
    (done : Noted.find size (2 ^ k) none bs = .ok r) :
    r = none ∨ ∃ last p b front back, r = some (last, p, b, front ++ back) ∧
      bs = front ++ b :: back ∧ Room b size (2 ^ k) p ∧
      ∀ w ∈ last, ∃ c ∈ front ++ back, w = c.start := by
  have erased := erase_find size (2 ^ k) none bs
  rw [done] at erased
  rcases find?_spec size power bs low with
    ⟨nothing, -⟩ | ⟨p, b, front, back, found, split, room, -, -⟩
  · rw [nothing] at erased
    exact .inl (Option.map_eq_none_iff.mp (Except.ok.inj erased))
  · rw [found] at erased
    obtain ⟨⟨last, _⟩, rfl, ⟨⟩⟩ := Option.map_eq_some_iff.mp (Except.ok.inj erased)
    refine .inr ⟨last, p, b, front, back, rfl, split, room, fun w met => ?_⟩
    rcases mem_of_find done with rfl | ⟨c, listed, rfl⟩
    · cases met
    · cases met
      exact ⟨c, listed, rfl⟩

/-- Every header that a request writes lies in a block that is free once it is served. -/
theorem holdsHeader_allocate (tidy : Tidy l.blocks) (low : ∀ b ∈ l.blocks, b.stop ≤ 2 ^ 63)
    (y : Layout) {r : Option Nat × FreeList} {ws : List Nat}
    (done : Noted.allocate l y.size y.align = .ok ⟨r, ws⟩) :
    ∀ w ∈ ws, HoldsHeader r.2.blocks w := by
  have fits := y.fits
  have sized : blockSize? y.size = .ok (blockSize y.size) := blockSize?_eq (by omega)
  obtain ⟨k, power, small, -, multiple⟩ := exists_pow_max y
  rw [Noted.allocate, sized, power] at done
  simp only [bind, Except.bind] at done
  rcases answer : Noted.find (blockSize y.size) (2 ^ k) none l.blocks with e | r
  · rw [answer] at done
    cases done
  · rw [answer] at done
    rcases noted_find low small answer with rfl | ⟨last, p, b, front, back, rfl, split, room, met⟩
    · cases done
      exact fun w none => nomatch none
    · cases done
      have multiples : 2 ^ k ∣ p := room.aligned
      have granules : granule ∣ p := Nat.dvd_trans multiple multiples
      intro w here
      rw [value_putBack]
      rw [split] at tidy
      rcases List.mem_append.mp here with unlinked | left
      · obtain ⟨c, listed, rfl⟩ := met w (Option.mem_toList.mp unlinked)
        have held := tidy.middle.2.holdsHeader listed
        exact holdsHeader_insertBetween (holdsHeader_insertBetween held)
      · exact holdsHeader_headers_putBack tidy room.start
          (Nat.lt_add_of_pos_right (blockSize_pos _)) room.stop granules
          (Nat.dvd_add granules (granule_dvd_blockSize _)) left

/-- So does every header that a return writes, once the block is back. -/
theorem holdsHeader_deallocate (tidy : Tidy l.blocks) (y : Layout) (whole : granule ∣ p)
    {ws : List Nat} (done : Noted.deallocate l (some p) y.size = .ok ⟨l', ws⟩) :
    ∀ w ∈ ws, HoldsHeader l'.blocks w := by
  have fits := y.fits
  have sized : blockSize? y.size = .ok (blockSize y.size) := blockSize?_eq (by omega)
  rw [Noted.deallocate, sized] at done
  cases done
  intro w here
  rw [value_insert]
  exact holdsHeader_headers_insert ⟨blockSize_pos _, whole, granule_dvd_blockSize _⟩ tidy here

/-- What was free stays free as a block is given back. -/
theorem holdsHeader_freed (y : Layout) (freed : l.deallocate (some p) y.size = .ok l')
    (held : HoldsHeader l.blocks w) : HoldsHeader l'.blocks w := by
  have fits := y.fits
  have sized : blockSize? y.size = .ok (blockSize y.size) := blockSize?_eq (by omega)
  rw [deallocate, sized] at freed
  cases freed
  exact holdsHeader_insert held.cons

end Nucleus.FreeList
