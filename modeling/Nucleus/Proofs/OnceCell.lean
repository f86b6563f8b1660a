import Nucleus.OnceCell

/-!
# Cells in use

A cell and those who use it. An initialiser may use the cell that it is to fill, and so may the
initialisers that it brings along, to any depth. The cell is driven by its state byte: a writer
claims an empty cell, writes the slot and only then says that it is full, and whoever needs a value
waits until it is.

* `Use`: what is done with a cell, each next call depending on what the last one was told.
* `Latch`, `Use.perform`: the cell as it lies in memory, with a record of what its users are told.
* `WriteOnce`: the records in which one write gets in, the first one.
* `Sound`, `sound_perform`: no claim is left without a value, so no wait is endless; and the record
  is one of a cell written once.
* `cell_written_once`: all of it for a new cell.
-/

namespace Nucleus.OnceCell

/-- What is done with one cell. An initialiser is such a use as well; it comes back with a value,
or with none if it is given up. -/
inductive Use (α : Type) where
  | back (a : Option α)
  | get (next : Option α → Use α)
  | set (a : α) (next : Except α Unit → Use α)
  | getOrInit (init : Use α) (next : Option α → Use α)

/-- What a use of `c` comes back with, and the cell then. -/
def Use.run {α : Type} : Use α → OnceCell α → Option α × OnceCell α
  | .back a, c => (a, c)
  | .get next, c => (next c.get).run c
  | .set a next, c => (next (c.set a).1).run (c.set a).2
  | .getOrInit init next, c => (next (c.getOrInit init.run).1).run (c.getOrInit init.run).2

/-! ## The state byte -/

/-- What a user of a cell is told. -/
inductive Event (α : Type) where
  | got (r : Option α)
  /-- A value was handed to `set`. -/
  | put (a : α) (r : Except α Unit)
  /-- An initialiser is run. -/
  | opened
  /-- An initialiser came back with a value. It is let go of if it is handed back. -/
  | offered (a : α) (r : Except α Unit)
  /-- `getOrInit` answers. -/
  | answered (a : α)

/-- A value of an initialiser that came too late. -/
def Event.lost {α : Type} : Event α → Bool
  | .offered _ (.error _) => true
  | _ => false

inductive Phase where
  | empty
  | writing
  | full
deriving DecidableEq

/-- What a user of a cell must not run into. -/
inductive Mishap where
  /-- A wait for a writer that never comes to an end. -/
  | endlessWait
  /-- A slot is read that nothing was written to. -/
  | unwrittenSlot

structure Latch (α : Type) where
  phase : Phase
  slot : Option α
  told : List (Event α)

namespace Latch
variable {α : Type}

def fresh : Latch α := ⟨.empty, none, []⟩

def tell (m : Latch α) (e : Event α) : Latch α := { m with told := m.told ++ [e] }

def read (m : Latch α) : Except Mishap α :=
  match m.slot with
  | some a => .ok a
  | none => .error .unwrittenSlot

def get (m : Latch α) : Except Mishap (Option α) :=
  if m.phase = .full then some <$> m.read else .ok none

/-- Claim the cell for a writer, if it is empty. -/
def claim? (m : Latch α) : Option (Latch α) :=
  if m.phase = .empty then some { m with phase := .writing } else none

/-- Write the slot of a claimed cell, then say so. -/
def fill (m : Latch α) (a : α) : Latch α :=
  let m := { m with slot := some a }
  { m with phase := .full }

def set (m : Latch α) (a : α) : Except α Unit × Latch α :=
  match m.claim? with
  | some m => (.ok (), m.fill a)
  | none => (.error a, m)

/-- Wait until the cell is full. Nobody else is there to fill it. -/
def wait (m : Latch α) : Except Mishap Unit :=
  if m.phase = .full then .ok () else .error .endlessWait

/-- The cell without its state byte. -/
def cell (m : Latch α) : OnceCell α := ⟨m.slot, m.told.countP Event.lost⟩

end Latch

/-- A use of the cell, by its state byte. -/
def Use.perform {α : Type} : Use α → Latch α → Except Mishap (Option α × Latch α)
  | .back a, m => .ok (a, m)
  | .get next, m => do
    let r ← m.get
    (next r).perform (m.tell (.got r))
  | .set a next, m =>
    let (r, m) := m.set a
    (next r).perform (m.tell (.put a r))
  | .getOrInit init next, m => do
    if m.phase = .full then
      let a ← m.read
      (next (some a)).perform (m.tell (.answered a))
    else
      match ← init.perform (m.tell .opened) with
      | (none, m) => (next none).perform m
      | (some a, m) =>
        let (r, m) := m.set a
        let m := m.tell (.offered a r)
        m.wait
        let b ← m.read
        (next (some b)).perform (m.tell (.answered b))

/-! ## One write -/

section
variable {α : Type} {es : List (Event α)} {e : Event α} {v : α}

/-- What can be told before the first write. -/
def Event.Early : Event α → Prop
  | .got r => r = none
  | .opened => True
  | .put _ _ | .offered _ _ | .answered _ => False

/-- The write of `v` that gets in. -/
def Event.Stores (v : α) : Event α → Prop
  | .put a r | .offered a r => a = v ∧ r = .ok ()
  | .got _ | .opened | .answered _ => False

/-- What can be told once `v` is in the cell. -/
def Event.Late (v : α) : Event α → Prop
  | .got r => r = some v
  | .put a r | .offered a r => r = .error a
  | .answered a => a = v
  | .opened => False

/-- The record of a cell that is written at most once, and what is in it then: up to the first
write everyone finds it empty, that write gets in, and afterwards everyone finds its value and no
write gets in. -/
inductive WriteOnce : List (Event α) → Option α → Prop where
  | unwritten {es : List (Event α)} (early : ∀ e ∈ es, e.Early) : WriteOnce es none
  | written {before after : List (Event α)} {e : Event α} {v : α} (early : ∀ e ∈ before, e.Early)
      (first : e.Stores v) (late : ∀ e ∈ after, e.Late v) :
      WriteOnce (before ++ e :: after) (some v)

theorem forall_mem_snoc {P : Event α → Prop} (all : ∀ e ∈ es, P e) (last : P e) :
    ∀ e' ∈ es ++ [e], P e' :=
  List.forall_mem_append.mpr ⟨all, List.forall_mem_singleton.mpr last⟩

theorem WriteOnce.early (once : WriteOnce es none) (early : e.Early) :
    WriteOnce (es ++ [e]) none := by
  cases once with
  | unwritten before => exact .unwritten (forall_mem_snoc before early)

theorem WriteOnce.stores (once : WriteOnce es none) (stores : e.Stores v) :
    WriteOnce (es ++ [e]) (some v) := by
  cases once with
  | unwritten before => exact .written before stores (List.forall_mem_nil _)

theorem WriteOnce.late (once : WriteOnce es (some v)) (late : e.Late v) :
    WriteOnce (es ++ [e]) (some v) := by
  cases once with
  | written before first after =>
    rw [List.append_assoc]
    exact .written before first (forall_mem_snoc after late)

end

/-! ## Each call -/

/-- The state byte is right about the slot, nobody is in the midst of writing, and the record is
one of a cell that is written once. -/
structure Latch.Sound {α : Type} (m : Latch α) : Prop where
  phase : m.phase = if m.slot.isSome then .full else .empty
  told : WriteOnce m.told m.slot

namespace Latch
variable {α : Type} {m : Latch α} {v : α} {e : Event α}

theorem sound_fresh : (fresh : Latch α).Sound := ⟨rfl, .unwritten (List.forall_mem_nil _)⟩

theorem Sound.full_iff (sound : m.Sound) : m.phase = .full ↔ m.slot.isSome = true := by
  rw [sound.phase]
  split <;> simp [*]

theorem Sound.early (sound : m.Sound) (here : m.slot = none) (early : e.Early) :
    (m.tell e).Sound := by
  have told := sound.told
  rw [here] at told
  refine ⟨sound.phase, ?_⟩
  simp only [tell, here]
  exact told.early early

theorem Sound.late (sound : m.Sound) (here : m.slot = some v) (late : e.Late v) :
    (m.tell e).Sound := by
  have told := sound.told
  rw [here] at told
  refine ⟨sound.phase, ?_⟩
  simp only [tell, here]
  exact told.late late

theorem cell_tell (kept : e.lost = false) : (m.tell e).cell = m.cell := by
  simp [cell, tell, List.countP_append, kept]

theorem read_of_slot (here : m.slot = some v) : m.read = .ok v := by
  rw [read, here]

theorem wait_of_slot (sound : m.Sound) (here : m.slot = some v) : m.wait = .ok () := by
  rw [wait, if_pos (sound.full_iff.mpr (by simp [here]))]

theorem sound_get (sound : m.Sound) :
    m.get = .ok m.cell.get ∧ (m.tell (.got m.cell.get)).Sound := by
  have full := sound.full_iff
  cases here : m.slot with
  | none =>
    have nothing : m.cell.get = none := here
    have empty : m.phase ≠ .full := by simp [full, here]
    rw [nothing, get, if_neg empty]
    exact ⟨rfl, sound.early here rfl⟩
  | some v =>
    have found : m.cell.get = some v := here
    have full : m.phase = .full := full.mpr (by simp [here])
    rw [found, get, if_pos full, read_of_slot here]
    exact ⟨rfl, sound.late here rfl⟩

/-! ### Writing -/

theorem set_of_unwritten (sound : m.Sound) (here : m.slot = none) (a : α) :
    m.set a = (.ok (), ⟨.full, some a, m.told⟩) := by
  have empty : m.phase = .empty := by simp [sound.phase, here]
  simp [set, claim?, empty, fill]

theorem set_of_written (sound : m.Sound) (here : m.slot = some v) (a : α) :
    m.set a = (.error a, m) := by
  have full : m.phase = .full := by simp [sound.phase, here]
  simp [set, claim?, full]

/-- After an attempt to write there is a value, and the attempt fits the record however it was
made. -/
theorem sound_set (sound : m.Sound) (a : α)
    (attempt : e = .put a (m.set a).1 ∨ e = .offered a (m.set a).1) :
    ((m.set a).2.tell e).Sound ∧ ∃ v, (m.set a).2.slot = some v := by
  cases here : m.slot with
  | none =>
    rw [set_of_unwritten sound here] at attempt ⊢
    have told := sound.told
    rw [here] at told
    have stores : e.Stores a := by
      rcases attempt with rfl | rfl <;> exact ⟨rfl, rfl⟩
    exact ⟨⟨rfl, told.stores stores⟩, a, rfl⟩
  | some v =>
    rw [set_of_written sound here] at attempt ⊢
    have late : e.Late v := by
      rcases attempt with rfl | rfl <;> rfl
    exact ⟨sound.late here late, v, here⟩

theorem cell_put (sound : m.Sound) (a : α) :
    (m.set a).1 = (m.cell.set a).1 ∧
      ((m.set a).2.tell (.put a (m.set a).1)).cell = (m.cell.set a).2 := by
  cases here : m.slot with
  | none =>
    rw [set_of_unwritten sound here, set_of_empty (c := m.cell) here, cell_tell rfl]
    exact ⟨rfl, rfl⟩
  | some v =>
    rw [set_of_written sound here, set_of_full (c := m.cell) here, cell_tell rfl]
    exact ⟨rfl, rfl⟩

theorem cell_offered (sound : m.Sound) (a : α) :
    ((m.set a).2.tell (.offered a (m.set a).1)).cell = m.cell.offer a := by
  cases here : m.slot with
  | none =>
    rw [set_of_unwritten sound here, offer, set_of_empty (c := m.cell) here, cell_tell rfl]
    rfl
  | some v =>
    rw [set_of_written sound here, offer, set_of_full (c := m.cell) here]
    simp [cell, tell, discard, List.countP_append, Event.lost]

end Latch

/-! ## A whole use -/

section
variable {α : Type} {c c' : OnceCell α} {a : α} {init : OnceCell α → Option α × OnceCell α}

theorem getOrInit_of_full (here : c.value = some a) : c.getOrInit init = (some a, c) := by
  rw [getOrInit, here]

theorem getOrInit_of_back (empty : c.value = none) (back : init c = (some a, c')) :
    c.getOrInit init = ((c'.offer a).value, c'.offer a) := by
  simp [getOrInit, empty, back]

theorem getOrInit_of_given_up (empty : c.value = none) (back : init c = (none, c')) :
    c.getOrInit init = (none, c') := by
  simp [getOrInit, empty, back]

end

/-- Driven by its state byte, a sound cell gives the answers of the cell without one, and stays
sound. -/
theorem sound_perform {α : Type} (p : Use α) : ∀ m : Latch α, m.Sound → ∃ m',
    p.perform m = .ok ((p.run m.cell).1, m') ∧ m'.cell = (p.run m.cell).2 ∧ m'.Sound := by
  induction p with
  | back a => exact fun m sound => ⟨m, rfl, rfl, sound⟩
  | get next ih =>
    intro m sound
    obtain ⟨got, told⟩ := Latch.sound_get sound
    have rest := ih m.cell.get _ told
    rw [Latch.cell_tell rfl] at rest
    simpa only [Use.perform, got, bind, Except.bind, Use.run] using rest
  | set a next ih =>
    intro m sound
    obtain ⟨answer, kept⟩ := Latch.cell_put sound a
    have rest := ih (m.set a).1 _ (Latch.sound_set sound a (.inl rfl)).1
    rw [kept, answer] at rest
    simpa only [Use.perform, answer, Use.run] using rest
  | getOrInit init next ihInit ih =>
    intro m sound
    cases here : m.slot with
    | some v =>
      have full : m.phase = .full := sound.full_iff.mpr (by simp [here])
      have rest := ih (some v) _ (sound.late (e := .answered v) here rfl)
      rw [Latch.cell_tell rfl] at rest
      have answer : m.cell.getOrInit init.run = (some v, m.cell) := getOrInit_of_full here
      simpa only [Use.perform, full, if_true, Latch.read_of_slot here, bind, Except.bind, Use.run,
        answer] using rest
    | none =>
      -- the initialiser finds the cell empty, and may leave it full
      have empty : m.phase ≠ .full := by simp [sound.full_iff, here]
      obtain ⟨m₁, run, cell, sound₁⟩ := ihInit _ (sound.early (e := .opened) here trivial)
      rw [Latch.cell_tell rfl] at run cell
      cases back : (init.run m.cell).1 with
      | none =>
        have rest := ih none m₁ sound₁
        have given_up : init.run m.cell = (none, m₁.cell) := Prod.ext back cell.symm
        have answer := getOrInit_of_given_up here given_up
        simpa only [Use.perform, empty, if_false, run, back, bind, Except.bind, Use.run,
          answer] using rest
      | some a =>
        obtain ⟨sound₂, v, full⟩ := Latch.sound_set sound₁ a (.inr rfl)
        have rest := ih (some v) _ (sound₂.late (e := .answered v) full rfl)
        have offered := Latch.cell_offered sound₁ a
        rw [Latch.cell_tell rfl, offered] at rest
        have value : (m₁.cell.offer a).value = some v := by
          rw [← offered]
          exact full
        have came_back : init.run m.cell = (some a, m₁.cell) := Prod.ext back cell.symm
        have answer := getOrInit_of_back here came_back
        rw [value] at answer
        have wait := Latch.wait_of_slot sound₂ full
        have read : ((m₁.set a).2.tell (.offered a (m₁.set a).1)).read = .ok v :=
          Latch.read_of_slot full
        simpa only [Use.perform, empty, if_false, run, back, wait, read, bind, Except.bind, Use.run,
          answer] using rest

/-- **A cell is written once.** However a new cell is used, by initialisers of initialisers too,
nobody waits forever and nobody reads a slot that was not written. Up to the first write everyone
finds the cell empty; that write gets in; and from then on every other write is handed its value
back, and all who ask are answered with the value of the first, also those whose own initialiser
came too late for it. -/
theorem cell_written_once {α : Type} (p : Use α) : ∃ m,
    p.perform .fresh = .ok ((p.run .empty).1, m) ∧ m.cell = (p.run .empty).2 ∧
      WriteOnce m.told (p.run .empty).2.value := by
  obtain ⟨m, ends, cell, sound⟩ := sound_perform p .fresh Latch.sound_fresh
  exact ⟨m, ends, cell, cell ▸ sound.told⟩

/-- The initialiser's own initialiser fills the cell, and both their values come too late. -/
example : (Use.getOrInit (.getOrInit (.set 1 fun _ => .back (some 2)) fun _ => .back (some 3))
    .back).run empty = (some 1, ⟨some 1, 2⟩) := rfl

end Nucleus.OnceCell
