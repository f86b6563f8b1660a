import Nucleus.Proofs.Paging.Identity
import Nucleus.Proofs.Paging.Paths

/-!
# Translation

An address is translated along the path of its table indices.

* `Linear.path`, `pageOf`: the path of an address, and the page that it lies in.
* `walk_of_follow`: where a full path leads, the address is translated to the frame at its end.
* `walk_tallies`: only the entry for an address and the tables below it matter, and of each entry
  little enough.
-/

namespace Nucleus
open Platform

namespace Linear

/-- The slots that an address is looked up in from a table at `level` down. -/
def path (a : Linear) : (level : Nat) → List (Fin 512)
  | 0 => []
  | level + 1 => a.part (level + 1) :: a.path level

variable {a b : Linear}

theorem length_path (a : Linear) (level : Nat) : (a.path level).length = level := by
  induction level with
  | zero => rfl
  | succ level ih => exact congrArg Nat.succ ih

theorem path_succ (a : Linear) (level : Nat) :
    a.path (level + 1) = a.part (level + 1) :: a.path level := rfl

theorem path_succ_eq_iff {level : Nat} : b.path (level + 1) = a.path (level + 1) ↔
    b.part (level + 1) = a.part (level + 1) ∧ b.path level = a.path level := by
  rw [path_succ, path_succ, List.cons.injEq]

end Linear

/-- The page that an address lies in, by number. Pages whose addresses differ only where no table
looks are one. -/
def pageOf (address : Nat) : Nat := address % Linear.reach / frameBytes

theorem path_eq_iff {a b : Nat} :
    (Linear.ofNat b).path 4 = (Linear.ofNat a).path 4 ↔ pageOf b = pageOf a := by
  simp only [Linear.path, Linear.part, Linear.ofNat, List.cons.injEq, Fin.ext_iff, Fin.ofNat,
    pageOf, Linear.reach, frameBytes, and_true]
  omega

/-- Alike as far as translations go. -/
def Entry.Alike (e e' : Entry) : Prop :=
  e'.present = e.present ∧ e'.huge = e.huge ∧ e'.frame = e.frame

theorem Entry.alike_of_eq {e e' : Entry} (same : e' = e) : e.Alike e' := by
  rw [same]
  exact ⟨rfl, rfl, rfl⟩

/-- All that is ever looked at in an entry: whether it is present, its size bit, and what it names
if it is present. An entry that is filled in keeps its size bit from before. -/
structure Entry.Tallies (e e' : Entry) : Prop where
  present : e'.present = e.present
  huge : e'.huge = e.huge
  frame : e.present = true → e'.frame = e.frame

theorem Entry.Tallies.refl (e : Entry) : e.Tallies e := ⟨rfl, rfl, fun _ => rfl⟩

theorem Entry.Alike.tallies {e e' : Entry} (alike : e.Alike e') : e.Tallies e' :=
  ⟨alike.1, alike.2.1, fun _ => alike.2.2⟩

namespace Memory
variable {m m' : Memory} {level table f : Nat} {a : Linear}

theorem walk_link (linked : m.link? (level + 2) table (a.part (level + 2)) = some f) :
    m.walk a (level + 2) table = m.walk a (level + 1) f := by
  obtain ⟨present, small, rfl⟩ := link?_eq_some.mp linked
  have inner : (decide (level + 1 = 0) ||
      (m.entry table (a.part (level + 2))).huge && decide (level + 2 ≤ 3)) = false := by
    simpa [Entry.large] using small
  rw [walk]
  simp only [present, inner, Bool.not_true, Bool.false_eq_true, if_false]

theorem walk_last (linked : m.link? 1 table (a.part 1) = some f) :
    m.walk a 1 table = some (f * frameBytes + a.toNat % frameBytes) := by
  obtain ⟨present, -, rfl⟩ := link?_eq_some.mp linked
  simp [walk, present, Entry.pointer, entryBytes]

/-- A full path ends at the page that its addresses are translated to. -/
theorem walk_of_follow : ∀ {level table : Nat},
    m.follow (level + 1) table (a.path (level + 1)) = some f →
      m.walk a (level + 1) table = some (f * frameBytes + a.toNat % frameBytes) := by
  intro level
  induction level with
  | zero =>
    intro table leads
    obtain ⟨g, linked, rest⟩ := follow_cons_eq_some.mp leads
    obtain rfl := Option.some.inj (follow_nil.symm.trans rest)
    exact walk_last linked
  | succ level ih =>
    intro table leads
    obtain ⟨g, linked, rest⟩ := follow_cons_eq_some.mp leads
    rw [walk_link linked]
    exact ih rest

/-- An address is translated the same from a table whose entry for it tallies, in a memory in which
the tables below that entry tally. -/
theorem walk_tallies : ∀ {level table table' : Nat},
    (m.entry table (a.part level)).Tallies (m'.entry table' (a.part level)) →
    (∀ p g, m.follow level table (a.part level :: p) = some g → p.length + 1 < level →
      ∀ i, (m.entry g i).Tallies (m'.entry g i)) →
    m'.walk a level table' = m.walk a level table := by
  intro level
  induction level with
  | zero => exact fun _ _ => rfl
  | succ level ih =>
    rintro table table' ⟨present, huge, frame⟩ below
    cases there : (m.entry table (a.part (level + 1))).present with
    | false => rw [walk_absent there, walk_absent (present.trans there)]
    | true =>
      have frame := frame there
      cases leaf : (m.entry table (a.part (level + 1))).large (level + 1) with
      | true =>
        simp only [Entry.large, Bool.and_eq_true, decide_eq_true_eq] at leaf
        rw [walk_large there leaf.1.1 leaf.2, walk_large (present.trans there)
          (huge.trans leaf.1.1) leaf.2, Entry.pointer, Entry.pointer, frame]
      | false =>
        have linked : m.link? (level + 1) table (a.part (level + 1)) =
            some ((m.entry table (a.part (level + 1))).frame : Nat) :=
          link?_eq_some.mpr ⟨there, leaf, rfl⟩
        have linked' : m'.link? (level + 1) table' (a.part (level + 1)) =
            some ((m.entry table (a.part (level + 1))).frame : Nat) := by
          refine link?_eq_some.mpr ⟨present.trans there, ?_, congrArg Fin.val frame⟩
          rw [Entry.large, huge]
          exact leaf
        cases level with
        | zero => rw [walk_last linked, walk_last linked']
        | succ level =>
          rw [walk_link linked, walk_link linked']
          have top := below [] _ ((follow_link linked).trans follow_nil) (Nat.le_add_left 2 level)
          refine ih (top _) fun p g leads short => ?_
          exact below _ g ((follow_link linked).trans leads) (Nat.succ_lt_succ short)

/-- An address is translated the same from a table that has the same entry for it, in a memory that
has the same ones in the tables below that entry. -/
theorem walk_congr {level table table' : Nat}
    (top : (m.entry table (a.part level)).Alike (m'.entry table' (a.part level)))
    (below : ∀ p g, m.follow level table (a.part level :: p) = some g →
      ∀ i, (m.entry g i).Alike (m'.entry g i)) :
    m'.walk a level table' = m.walk a level table :=
  walk_tallies top.tallies fun p g leads _ i => (below p g leads i).tallies

end Memory

end Nucleus
