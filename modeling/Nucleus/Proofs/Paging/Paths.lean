import Nucleus.Paging.Store

/-!
# Paths

What belongs to a page tree is what a path of slots leads to, from the top table down through
present entries: tables, and at the end of a full path a page. Large pages are no part of it, they
were never taken from an allocator.

* `Memory.follow`: the frame that a path leads to.
* `Memory.follow_congr`: a tree is the same in a memory that has the same links in its tables.
* `Store.WellFormed`: one path to each frame, no frame of the tree is free, and what is not present
  is clear.
-/

namespace Nucleus

/-- Whether an entry at `level` maps a large page, if it maps anything. -/
def Entry.large (e : Entry) (level : Nat) : Bool := e.huge && 2 ≤ level && level ≤ 3

namespace Memory

/-- The frame that entry `i` of a table at `level` adds to the tree. -/
def link? (m : Memory) (level table : Nat) (i : Fin 512) : Option Nat :=
  let e := m.entry table i
  if e.present && !e.large level then some e.frame else none

/-- The frame that a path leads to from a table at `level`. Paths end at pages, which are at
level 0. -/
def follow (m : Memory) : (level table : Nat) → List (Fin 512) → Option Nat
  | _, table, [] => some table
  | 0, _, _ :: _ => none
  | level + 1, table, i :: path => (m.link? (level + 1) table i).bind (m.follow level · path)

variable {m m' : Memory} {level table f g : Nat} {i j : Fin 512} {p q : List (Fin 512)}

@[simp] theorem follow_nil : m.follow level table [] = some table := by
  cases level <;> rfl

@[simp] theorem follow_page : m.follow 0 table (i :: p) = none := rfl

theorem follow_cons : m.follow (level + 1) table (i :: p) =
    (m.link? (level + 1) table i).bind (m.follow level · p) := rfl

theorem follow_link (linked : m.link? (level + 1) table i = some f) :
    m.follow (level + 1) table (i :: p) = m.follow level f p := by
  rw [follow_cons, linked]
  rfl

theorem follow_of_not_link (none : m.link? (level + 1) table i = none) :
    m.follow (level + 1) table (i :: p) = Option.none := by
  rw [follow_cons, none]
  rfl

theorem follow_cons_eq_some : m.follow (level + 1) table (i :: p) = some g ↔
    ∃ f, m.link? (level + 1) table i = some f ∧ m.follow level f p = some g :=
  Option.bind_eq_some_iff

/-- A tree is the same in a memory that has the same links in its tables. -/
theorem follow_congr : ∀ {level table : Nat},
    (∀ p g, p.length < level → m.follow level table p = some g →
      ∀ l i, m'.link? l g i = m.link? l g i) →
    ∀ p, m'.follow level table p = m.follow level table p := by
  intro level
  induction level with
  | zero =>
    intro table _ p
    cases p <;> rfl
  | succ level ih =>
    intro table same p
    cases p with
    | nil => rw [follow_nil, follow_nil]
    | cons i p =>
      have top := same [] table (Nat.succ_pos level) follow_nil (level + 1) i
      cases linked : m.link? (level + 1) table i with
      | none => rw [follow_of_not_link linked, follow_of_not_link (top.trans linked)]
      | some f =>
        rw [follow_link linked, follow_link (top.trans linked)]
        refine ih (fun q g short leads => same (i :: q) g (Nat.succ_lt_succ short) ?_) p
        rw [follow_link linked, leads]

theorem link?_congr (same : m'.entry table i = m.entry table i) :
    m'.link? level table i = m.link? level table i := by
  unfold link?
  rw [same]

theorem link?_of_absent (absent : (m.entry table i).present = false) :
    m.link? level table i = none := by
  simp [link?, absent]

theorem follow_of_absent (absent : (m.entry table i).present = false) :
    m.follow level table (i :: p) = none := by
  cases level with
  | zero => rfl
  | succ level => exact follow_of_not_link (link?_of_absent absent)

theorem follow_of_zero (zero : m.entry table i = .zero) :
    m.follow level table (i :: p) = none := by
  refine follow_of_absent ?_
  rw [zero]
  rfl

/-- The tree below a slot is the same below a slot with the same entry, in a memory that has the
same entries in the tables and pages of the tree. -/
theorem follow_slot {table' : Nat} (top : m'.entry table' i = m.entry table i)
    (below : ∀ p g, m.follow level table (i :: p) = some g → ∀ j, m'.entry g j = m.entry g j)
    (p : List (Fin 512)) : m'.follow level table' (i :: p) = m.follow level table (i :: p) := by
  cases level with
  | zero => rfl
  | succ level =>
    have same : m'.link? (level + 1) table' i = m.link? (level + 1) table i := by
      rw [link?, link?, top]
    cases linked : m.link? (level + 1) table i with
    | none => rw [follow_of_not_link linked, follow_of_not_link (same.trans linked)]
    | some f =>
      rw [follow_link linked, follow_link (same.trans linked)]
      refine follow_congr (fun q g _ leads l j => ?_) p
      rw [link?, link?, below q g ((follow_link linked).trans leads)]

theorem link?_eq_some : m.link? level table i = some f ↔ (m.entry table i).present = true ∧
    (m.entry table i).large level = false ∧ (m.entry table i).frame = f := by
  simp [link?, and_assoc]

/-- An entry in a page table, or without the size bit, leads to a frame of the tree. -/
theorem link?_of_table (present : (m.entry table i).present = true)
    (small : level = 0 ∨ (m.entry table i).huge = false) :
    m.link? (level + 1) table i = some ((m.entry table i).frame : Nat) := by
  apply link?_eq_some.mpr
  cases small with
  | inl last => exact ⟨present, by simp [Entry.large, last], rfl⟩
  | inr small => exact ⟨present, by simp [Entry.large, small], rfl⟩

/-- The last step of a path. -/
theorem follow_concat : m.follow level table (q ++ [j]) = some f ↔
    ∃ g, m.follow level table q = some g ∧ q.length < level ∧
      m.link? (level - q.length) g j = some f := by
  induction level generalizing table q with
  | zero => cases q <;> simp
  | succ level ih =>
    cases q with
    | nil => simp [follow_cons]
    | cons i q =>
      rw [List.cons_append, follow_cons_eq_some]
      simp only [ih, follow_cons_eq_some, List.length_cons, Nat.add_lt_add_iff_right,
        Nat.add_sub_add_right]
      constructor
      · rintro ⟨h, linked, g, leads, short, last⟩
        exact ⟨g, ⟨h, linked, leads⟩, short, last⟩
      · rintro ⟨g, ⟨h, linked, leads⟩, short, last⟩
        exact ⟨h, linked, g, leads, short, last⟩

end Memory

namespace Store
variable {s s' : Store} {level table f g : Nat} {i j : Fin 512} {p q : List (Fin 512)}

/-- The tree below a table at `level`: one path leads to each frame of it, none of them is free,
and entries of its tables that are not present are clear. -/
structure WellFormed (s : Store) (level table : Nat) : Prop where
  unique : ∀ p q f, s.memory.follow level table p = some f →
    s.memory.follow level table q = some f → p = q
  taken : ∀ p f, s.memory.follow level table p = some f → s.frames.isTaken f = true
  absent : ∀ p g, s.memory.follow level table p = some g → p.length < level →
    ∀ i, (s.memory.entry g i).present = false → s.memory.entry g i = .zero

namespace WellFormed

theorem below (well : s.WellFormed (level + 1) table)
    (linked : s.memory.link? (level + 1) table i = some f) : s.WellFormed level f := by
  have longer : ∀ {p g}, s.memory.follow level f p = some g →
      s.memory.follow (level + 1) table (i :: p) = some g := by
    intro p g leads
    rw [Memory.follow_link linked, leads]
  refine ⟨fun p q g hp hq => ?unique, fun p g hp => well.taken _ g (longer hp),
    fun p g hp short => well.absent _ g (longer hp) (Nat.succ_lt_succ short)⟩
  case unique => exact (List.cons.inj (well.unique _ _ g (longer hp) (longer hq))).2

theorem not_free (well : s.WellFormed level table)
    (leads : s.memory.follow level table p = some f) :
    ¬ s.frames.isTaken f = false := by
  rw [well.taken p f leads]
  exact Bool.noConfusion

theorem clear (well : s.WellFormed (level + 1) table)
    (absent : (s.memory.entry table i).present = false) : s.memory.entry table i = .zero :=
  well.absent [] table Memory.follow_nil (Nat.succ_pos level) i absent

/-- No path leads back to the table that it starts from. -/
theorem not_follow_root (well : s.WellFormed level table) :
    s.memory.follow level table (i :: p) ≠ some table := by
  intro back
  cases well.unique _ _ _ back Memory.follow_nil

/-- The trees below two slots have no frame in common. -/
theorem eq_of_follow (well : s.WellFormed level table)
    (hp : s.memory.follow level table (i :: p) = some g)
    (hq : s.memory.follow level table (j :: q) = some g) : i = j :=
  (List.cons.inj (well.unique _ _ g hp hq)).1

/-- A tree is well formed in any store in which its frames are taken and its tables and pages have
the same entries. -/
theorem congr (well : s.WellFormed level table)
    (taken : ∀ p f, s.memory.follow level table p = some f → s'.frames.isTaken f = true)
    (same : ∀ p g, s.memory.follow level table p = some g →
      ∀ i, s'.memory.entry g i = s.memory.entry g i) : s'.WellFormed level table := by
  have follow : ∀ p, s'.memory.follow level table p = s.memory.follow level table p :=
    Memory.follow_congr fun p g _ leads l i => Memory.link?_congr (same p g leads i)
  refine ⟨fun p q f hp hq => ?unique, fun p f leads => ?taken, fun p g leads short i absent =>
    ?absent⟩
  case unique =>
    rw [follow] at hp hq
    exact well.unique p q f hp hq
  case taken =>
    rw [follow] at leads
    exact taken p f leads
  case absent =>
    rw [follow] at leads
    rw [same p g leads] at absent ⊢
    exact well.absent p g leads short i absent

end WellFormed

end Store

end Nucleus
