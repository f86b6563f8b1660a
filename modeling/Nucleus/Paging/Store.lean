import Nucleus.Frame.Allocator
import Nucleus.Paging.Linear
import Nucleus.Paging.Memory

/-!
# Page trees

A page tree is four levels of tables under a root frame. Operations on trees work on a `Store`,
the physical memory together with the allocator that its frames come from.

* `Memory.translate`: the physical address behind a linear one, if there is one.
* `Store.map`: back a run of pages, creating the tables and pages that are missing. Present pages
  keep their frame; every entry on the way is made writable and open to user code.
* `Store.unmap`: take down everything below one slot of the top table.
* `Store.newUserTree`, `Store.dropUserTree`: a private tree that shares the lower half of another.
-/

namespace Nucleus
open Platform

/-- Why a paging operation failed. -/
inductive PagingError where
  /-- No frame was left for a table or a page. -/
  | alloc (e : AllocError)
  /-- The page is present and the access itself was not allowed. -/
  | protectionViolation (address : Nat)
  /-- Not an address that may be paged in, or the run passes the last slot of the top table. -/
  | outOfRange (address : Nat)
  /-- A large page covers the address already. -/
  | hugePage (address : Nat)
deriving DecidableEq, Repr

def PagingError.kind : PagingError → String
  | .alloc e => e.kind
  | .protectionViolation _ => "ProtectionViolation"
  | .outOfRange _ => "AddressOutOfRange"
  | .hugePage _ => "HugePageInTheWay"

def PagingError.message : PagingError → String
  | .alloc e => e.message
  | .protectionViolation a => s!"protection violation at {Word.hex a}"
  | .outOfRange a => s!"address {Word.hex a} out of demand-paging range"
  | .hugePage a => s!"huge page in the way at {Word.hex a}"

/-- The frame of the table at a physical address. Tables start where frames do. -/
def tableFrame? (address : Nat) : Except Panic Nat :=
  if address % frameBytes = 0 then .ok (address / frameBytes) else .error .misalignedTable

/-! ## Walking a tree -/

/-- Bytes mapped by one entry of a table at `level`. -/
def entryBytes : (level : Nat) → Nat
  | level + 2 => 512 * entryBytes (level + 1)
  | _ => frameBytes

/-- Follow the entries for `a` down from a table at `level`. Large pages are leaves at levels 2
and 3. -/
def Memory.walk (m : Memory) (a : Linear) : (level table : Nat) → Option Nat
  | 0, _ => none
  | level + 1, table =>
    let e := m.entry table (a.part (level + 1))
    if !e.present then none
    else if level = 0 || (e.huge && level + 1 ≤ 3) then
      some (e.pointer + a.toNat % entryBytes (level + 1))
    else m.walk a level e.frame

/-- The physical address that the tree at `root` gives for `address`. -/
def Memory.translate (m : Memory) (root address : Nat) : Option Nat :=
  m.walk (.ofNat address) 4 root

/-! ## Mapping -/

structure Store where
  frames : Frames
  memory : Memory

namespace Store

def target : String := "kernel_vmem::address_space"

/-- A store with nothing in it but a cleared top table, taken from the `lines` lines of an
allocator that serves the frames of `window`: the table's frame. -/
def withRoot (lines : Nat) (window : Span) (memory : Memory) :
    Checked (Except AllocError (Nat × Store)) := do
  let free := (Frames.full lines).release 0 (64 * lines)
  let frames ← Checked.check (free.restrict window.first window.stop)
  match ← Checked.ofLogged (frames.allocate 1) with
  | .error e => pure (.error e)
  | .ok (root, frames) => pure (.ok (root, ⟨frames, memory.clear root⟩))

/-- The frame that entry `i` of `table` names. An entry that is not present first gets a cleared
frame of its own. -/
def child (s : Store) (table : Nat) (i : Fin 512) : Logged (Except AllocError Nat × Store) :=
  let e := s.memory.entry table i
  if e.present then pure (.ok e.frame, s)
  else do
    match ← s.frames.allocate 1 with
    | .error err => pure (.error err, s)
    | .ok (f, frames) =>
      let memory := (s.memory.clear f).update table i fun e =>
        { e.setPointer (f * frameBytes) with present := true }
      Logged.note .trace target s!"new paging frame {Word.hex (f * frameBytes)}"
      pure (.ok f, ⟨frames, memory⟩)

/-- Let user code write through entry `i` of `table`. -/
def openEntry (s : Store) (table : Nat) (i : Fin 512) : Store :=
  { s with memory := s.memory.update table i fun e => { e with writable := true, user := true } }

/-- Go through entry `i` of a table at `level`, for the page at `a`: the frame below it. -/
def descend (s : Store) (level table : Nat) (a : Linear) :
    Logged (Except PagingError Nat × Store) := do
  let i := a.part level
  let e := s.memory.entry table i
  if 1 < level && e.present && e.huge then pure (.error (.hugePage a.canonical.toNat), s)
  else
    match ← s.child table i with
    | (.error err, s) => pure (.error (.alloc err), s)
    | (.ok f, s) => pure (.ok f, s.openEntry table i)

/-- What mapping a run below one frame comes to: the pages of the run that are left over. -/
abbrev Fill := Store → (frame : Nat) → (a : Linear) → (pages : Nat) →
  Logged (Except PagingError Nat × Store)

/-- Map `pages` pages from `a` on through the `slots` entries of a table at `level` from the one
for `a` on, with `below` for what lies under an entry. -/
def fillSlots (below : Fill) (level table : Nat) :
    (slots : Nat) → Store → (a : Linear) → (pages : Nat) → Logged (Except PagingError Nat × Store)
  | _, s, _, 0 => pure (.ok 0, s)
  | 0, s, _, pages + 1 => pure (.ok (pages + 1), s)
  | slots + 1, s, a, pages + 1 => do
    match ← s.descend level table a with
    | (.error err, s) => pure (.error err, s)
    | (.ok f, s) =>
      match ← below s f a (pages + 1) with
      | (.error err, s) => pure (.error err, s)
      | (.ok left, s) => fillSlots below level table slots s (a.advance level) left

/-- Map `pages` pages from `a` on below a table at `level`. At level 0 the frame is the page
itself, one of the run. -/
def fill : (level : Nat) → Fill
  | 0, s, _, _, pages => pure (.ok (pages - 1), s)
  | level + 1, s, table, a, pages =>
    fillSlots (fill level) (level + 1) table (512 - a.part (level + 1)) s a pages

/-- Back `pages` pages from the one at `address` on with frames, in the tree at `root`. Frames
taken before a failure stay in the tree. -/
def map (s : Store) (root address pages : Nat) : Logged (Except PagingError Unit × Store) := do
  match ← fill 4 s root (.ofNat address) pages with
  | (.error err, s) => pure (.error err, s)
  | (.ok 0, s) => pure (.ok (), s)
  | (.ok (_ + 1), s) => pure (.error (.outOfRange address), s)

/-! ## Unmapping -/

/-- Take down entry `i` of `table`, with `below` for the table it names: what it holds is given
back unless it is a large page, which was never taken from the allocator. -/
def drop (below : Store → Nat → Store) (s : Store) (table : Nat) (i : Fin 512) : Store :=
  let e := s.memory.entry table i
  if !e.present then s
  else
    let s :=
      if e.huge then s
      else
        let s := below s e.frame
        { s with frames := s.frames.release (s.memory.entry table i).frame 1 }
    { s with memory := s.memory.put table i .zero }

/-- Take down every entry of a table at `level`. Nothing lies below a page. -/
def drain : (level : Nat) → Store → (table : Nat) → Store
  | 0, s, _ => s
  | level + 1, s, table =>
    (List.finRange 512).foldl (fun s i => drop (drain level) s table i) s

/-- Take down everything below slot `i` of the top table `root`, and empty the slot. -/
def unmapSlot (s : Store) (root : Nat) (i : Fin 512) : Store :=
  let e := s.memory.entry root i
  if !e.present then s
  else
    let s := drain 3 { s with memory := s.memory.put root i .zero } e.frame
    { s with frames := s.frames.release e.frame 1 }

/-- Take down everything below the top slot that covers `address`. -/
def unmap (s : Store) (root address : Nat) : Store :=
  s.unmapSlot root ((Linear.ofNat address).part 4)

/-! ## Trees of tasks -/

/-- Copy the lower half of the top table `source` into `root`. -/
def shareLowerHalf (m : Memory) (source root : Nat) : Memory :=
  ((List.finRange 512).take userFirst).foldl (fun m i => m.put root i (m.entry source i)) m

/-- A new tree whose lower half is that of `source`; the frame of its top table. -/
def newUserTree (s : Store) (source : Nat) : Logged (Except PagingError Nat × Store) := do
  match ← s.frames.allocate 1 with
  | .error err => pure (.error (.alloc err), s)
  | .ok (f, frames) =>
    Logged.note .trace target s!"new address space {Word.hex (f * frameBytes)}"
    pure (.ok f, ⟨frames, shareLowerHalf (s.memory.clear f) source f⟩)

/-- Take down the upper half of a tree and its top table; the shared lower half stays. -/
def dropUserTree (s : Store) (root : Nat) : Store :=
  let s := ((List.finRange 512).drop userFirst).foldl (fun s i => s.unmapSlot root i) s
  { s with frames := s.frames.release root 1 }

end Store

end Nucleus
