import Nucleus.Paging.Identity
import Nucleus.Paging.Store

/-!
# The identity map, exactly

What the tables hold once they are built, and where they lead every address.

* `walk_absent`, `walk_table`, `walk_large`: one step of a walk.
* `built_build`: the entries of a built map.
* `translate_of_built`: the addresses below `identityEnd` lead to themselves, the others nowhere.
* `translate_rebuilt`: so they do in new tables, however often these are built.
-/

namespace Nucleus
open Platform

/-- The number of frames that entries can name. -/
def Entry.frameBound : Nat := 0x10000000000

/-- The number of addresses that the tables tell apart. -/
def Linear.reach : Nat := 0x1000000000000

namespace Memory
variable {m : Memory} {a : Linear} {level table : Nat}

theorem walk_absent (absent : (m.entry table (a.part (level + 1))).present = false) :
    m.walk a (level + 1) table = none := by
  simp [walk, absent]

theorem walk_table (present : (m.entry table (a.part (level + 1))).present = true)
    (small : (m.entry table (a.part (level + 1))).huge = false) (inner : level ≠ 0) :
    m.walk a (level + 1) table = m.walk a level (m.entry table (a.part (level + 1))).frame := by
  simp [walk, present, small, inner]

theorem walk_large (present : (m.entry table (a.part (level + 1))).present = true)
    (huge : (m.entry table (a.part (level + 1))).huge = true) (low : level + 1 ≤ 3) :
    m.walk a (level + 1) table =
      some ((m.entry table (a.part (level + 1))).pointer + a.toNat % entryBytes (level + 1)) := by
  simp [walk, present, huge, low]

end Memory

namespace IdentityMap
variable {m : Memory} {root : Nat}

/-- The tables at `root` lie where entries can name them. -/
def Placed (root : Nat) : Prop := root + tableCount ≤ Entry.frameBound

/-- The slots that `build` leaves alone are clear. -/
structure Bare (m : Memory) (root : Nat) : Prop where
  top : ∀ i, i ≠ 0 → m.entry root i = .zero
  directories : ∀ i, directoryCount ≤ i.val → m.entry (directories root) i = .zero

/-- An entry for the table in frame `f`. -/
def link (f : Nat) : Entry := kernelEntry.setPointer (f * frameBytes)

theorem frame_link {f : Nat} (small : f < Entry.frameBound) : ((link f).frame : Nat) = f := by
  have named : ((link f).frame : Nat) = f * frameBytes / frameBytes % Entry.frameBound := rfl
  rw [named, Nat.mul_div_cancel _ (by decide), Nat.mod_eq_of_lt small]

/-- The entries of a built map. -/
structure Built (m : Memory) (root : Nat) : Prop extends Bare m root where
  head : m.entry root 0 = link (IdentityMap.directories root)
  linked : ∀ i : Fin 512, i.val < directoryCount →
    m.entry (IdentityMap.directories root) i = link (directory root i)
  filled : ∀ i, i < directoryCount → ∀ j, m.entry (directory root i) j = (directoryTable i).get j

theorem entry_buildDirectory (m : Memory) (root : Nat) {i : Nat} (slot : i < 512) (f : Nat)
    (j : Fin 512) :
    (buildDirectory root m i).entry f j =
      if directory root i = f then (directoryTable i).get j
      else if directories root = f ∧ i = j.val then link (directory root i)
      else m.entry f j := by
  have named : Fin.ofNat 512 i = j ↔ i = j.val := by
    rw [Fin.ext_iff, Fin.val_ofNat, Nat.mod_eq_of_lt slot]
  simp only [buildDirectory, Memory.entry_putTable, Memory.entry_put, named, link]

/-- The entries once the first `n` directories are there. -/
theorem entry_directories (m : Memory) (root n : Nat) (slots : n ≤ 512) :
    let built := (List.range n).foldl (buildDirectory root) m
    (∀ i, i < n → ∀ j, built.entry (directory root i) j = (directoryTable i).get j) ∧
    (∀ j : Fin 512, built.entry (directories root) j =
      if j.val < n then link (directory root j) else m.entry (directories root) j) ∧
    ∀ j, built.entry root j = m.entry root j := by
  induction n with
  | zero =>
    refine ⟨fun i h => absurd h (Nat.not_lt_zero i), fun j => ?_, fun j => rfl⟩
    rw [if_neg (Nat.not_lt_zero _)]
    rfl
  | succ n ih =>
    obtain ⟨filled, linked, top⟩ := ih (Nat.le_of_succ_le slots)
    simp only [List.range_succ, List.foldl_append, List.foldl_cons, List.foldl_nil]
    generalize (List.range n).foldl (buildDirectory root) m = built at filled linked top
    have entries := entry_buildDirectory built root slots
    refine ⟨fun i h j => ?_, fun j => ?_, fun j => ?_⟩
    · rw [entries]
      by_cases last : i = n
      · rw [if_pos (by rw [last]), last]
      · rw [if_neg (by simp only [directory]; omega),
          if_neg (by simp only [directory, directories]; omega)]
        exact filled i (by omega) j
    · rw [entries, if_neg (by simp only [directory, directories]; omega)]
      by_cases last : n = j.val
      · rw [if_pos ⟨rfl, last⟩, if_pos (by omega), last]
      · rw [if_neg (by simp [last]), linked j]
        by_cases before : j.val < n
        · rw [if_pos before, if_pos (by omega)]
        · rw [if_neg before, if_neg (by omega)]
    · rw [entries, if_neg (by simp only [directory]; omega),
        if_neg (by simp only [directories]; omega)]
      exact top j

theorem built_build (bare : Bare m root) : Built (build m root).value root := by
  have start (f : Nat) (i : Fin 512) : (m.put root 0 (link (directories root))).entry f i =
      if root = f ∧ 0 = i then link (directories root) else m.entry f i :=
    Memory.entry_put _ _ _ _ _ _
  obtain ⟨filled, linked, top⟩ := entry_directories (m.put root 0 (link (directories root))) root
    directoryCount (by decide)
  have apart : root ≠ directories root := Nat.ne_of_lt (Nat.lt_succ_self root)
  refine ⟨⟨fun i other => ?_, fun i past => ?_⟩, ?_, fun i within => ?_, filled⟩
  · refine (top i).trans ?_
    rw [start, if_neg fun h => other h.2.symm, bare.top i other]
  · refine (linked i).trans ?_
    rw [if_neg (Nat.not_lt_of_le past), start, if_neg fun h => apart h.1, bare.directories i past]
  · refine (top 0).trans ?_
    rw [start, if_pos ⟨rfl, rfl⟩]
  · refine (linked i).trans ?_
    rw [if_pos within]

/-- Directory `i` leads to gigabyte `i` with large pages. -/
theorem get_directoryTable (i : Nat) (j : Fin 512) :
    (directoryTable i).get j =
      { kernelEntry with huge := true }.setPointer (i * directoryBytes + j * largePageBytes) :=
  Vector.getElem_ofFn _

theorem pointer_directoryTable {i : Nat} (small : i < directoryCount) (j : Fin 512) :
    ((directoryTable i).get j).pointer = i * directoryBytes + j * largePageBytes := by
  have within := j.isLt
  rw [get_directoryTable]
  simp only [Entry.pointer, Entry.setPointer, Fin.ofNat, directoryCount, directoryBytes,
    largePageBytes, frameBytes] at small ⊢
  omega

/-- **The identity map is exact.** An address leads to its lower 48 bits if these are below the end
of the map, and nowhere otherwise. -/
theorem translate_of_built (built : Built m root) (placed : Placed root) (a : Nat) :
    m.translate root a =
      if a % Linear.reach < identityEnd then some (a % Linear.reach) else none := by
  let slot (level : Nat) := (Linear.ofNat a).part level
  have top : (slot 4).val = a / 0x8000000000 % 512 := rfl
  have middle : (slot 3).val = a / 0x40000000 % 512 := rfl
  have bottom : (slot 2).val = a / 0x200000 % 512 := rfl
  have number := Linear.toNat_ofNat a
  have gigabytes : identityEnd = 64 * 0x40000000 := rfl
  have names : Entry.frameBound = 0x10000000000 := rfl
  simp only [Placed, tableCount, directoryCount] at placed
  rw [Linear.reach]
  have zero : slot 4 = 0 ↔ (slot 4).val = 0 := Fin.ext_iff
  by_cases lower : slot 4 = 0
  · have head : m.entry root (slot 4) = link (directories root) := by rw [lower, built.head]
    have next : ((link (directories root)).frame : Nat) = directories root :=
      frame_link (by simp only [directories]; omega)
    rw [Memory.translate, Memory.walk_table (by rw [head]; rfl) (by rw [head]; rfl) (by decide),
      head, next]
    by_cases within : (slot 3).val < directoryCount
    · have linked := built.linked (slot 3) within
      have down : ((link (directory root (slot 3))).frame : Nat) = directory root (slot 3) := by
        refine frame_link ?_
        simp only [directory, directoryCount] at within ⊢
        omega
      have leaf := built.filled (slot 3) within (slot 2)
      rw [Memory.walk_table (by rw [linked]; rfl) (by rw [linked]; rfl) (by decide), linked, down,
        Memory.walk_large (by rw [leaf, get_directoryTable]; rfl)
          (by rw [leaf, get_directoryTable]; rfl) (by decide),
        leaf, pointer_directoryTable within, number]
      have page : entryBytes (1 + 1) = 0x200000 := rfl
      have sum : (slot 3).val * directoryBytes + (slot 2).val * largePageBytes +
          a % Word.bound % entryBytes (1 + 1) = a % 0x1000000000000 := by
        simp only [page, directoryBytes, largePageBytes, Word.bound]
        omega
      rw [sum, if_pos]
      simp only [directoryCount] at within
      omega
    · have absent := built.directories (slot 3) (Nat.le_of_not_lt within)
      rw [Memory.walk_absent (by rw [absent]; rfl), if_neg]
      simp only [directoryCount] at within
      omega
  · have absent := built.top (slot 4) lower
    rw [Memory.translate, Memory.walk_absent (by rw [absent]; rfl), if_neg]
    omega

theorem translate_eq_self_iff (built : Built m root) (placed : Placed root) {a : Nat} :
    m.translate root a = some a ↔ a < identityEnd := by
  have gigabytes : identityEnd = 64 * 0x40000000 := rfl
  rw [translate_of_built built placed, Linear.reach]
  constructor
  · intro same
    split at same
    · next low =>
      have lower := Option.some.inj same
      omega
    · cases same
  · intro low
    have lower : a % 0x1000000000000 = a := by omega
    rw [lower, if_pos low]

/-! ## New tables -/

theorem entry_clear (m : Memory) (root f : Nat) (j : Fin 512) :
    (clear m root).entry f j =
      if root ≤ f ∧ f < root + tableCount then .zero else m.entry f j := by
  have cleared (n : Nat) : ((List.range n).foldl (fun m k => m.clear (root + k)) m).entry f j =
      if root ≤ f ∧ f < root + n then .zero else m.entry f j := by
    induction n with
    | zero => rw [if_neg (by omega)]; rfl
    | succ n ih =>
      rw [List.range_succ, List.foldl_append, List.foldl_cons, List.foldl_nil, Memory.entry_clear,
        ih]
      by_cases last : root + n = f
      · rw [if_pos last, if_pos (by omega)]
      · rw [if_neg last]
        by_cases before : root ≤ f ∧ f < root + n
        · rw [if_pos before, if_pos (by omega)]
        · rw [if_neg before, if_neg (by omega)]
  exact cleared tableCount

theorem bare_clear (m : Memory) (root : Nat) : Bare (clear m root) root := by
  refine ⟨fun i _ => ?_, fun i _ => ?_⟩
  · rw [entry_clear, if_pos (by simp only [tableCount]; omega)]
  · rw [entry_clear, if_pos (by simp only [tableCount, directories]; omega)]

/-! ## Built once more -/

/-- New tables at `root`, built `n` times over. -/
def rebuilt (m : Memory) (root : Nat) : (n : Nat) → Memory
  | 0 => clear m root
  | n + 1 => (build (rebuilt m root n) root).value

/-- What is built stays bare where `build` leaves it alone, so it can be built again. -/
theorem built_rebuilt (m : Memory) (root n : Nat) : Built (rebuilt m root (n + 1)) root := by
  induction n with
  | zero => exact built_build (bare_clear m root)
  | succ n ih => exact built_build ih.toBare

/-- A canonical address lies below the end of the map as soon as its lower 48 bits do. -/
theorem low_of_canonical {a : Nat} (word : a < Word.bound)
    (canonical : (Linear.ofNat a).isCanonical = true) :
    a % Linear.reach < identityEnd ↔ a < identityEnd := by
  have gigabytes : identityEnd = 64 * 0x40000000 := rfl
  have upper : (Linear.ofNat a).sign = (Linear.ofNat a).canonical.sign :=
    congrArg Linear.sign (of_decide_eq_true canonical)
  have top : ((Linear.ofNat a).pml4 : Nat) = a / 0x8000000000 % 512 := rfl
  have rest : ((Linear.ofNat a).sign : Nat) = a / 0x1000000000000 % 65536 := rfl
  rw [Word.bound] at word
  rw [Linear.reach]
  by_cases lower : 256 ≤ (Linear.ofNat a).pml4.val
  · omega
  · have zero : (Linear.ofNat a).canonical.sign = 0 := if_neg lower
    rw [upper, zero] at rest
    have high : a / 0x1000000000000 % 65536 = 0 := rest.symm
    omega

/-- **New tables that were built, once or again, are exact.** They lead an address to its lower 48
bits if these are below the end of the map, and nowhere otherwise. So of the canonical addresses
those below the end lead to themselves, and no other leads anywhere. -/
theorem translate_rebuilt (m : Memory) (root n : Nat) (placed : Placed root) (some : 0 < n)
    (a : Nat) (word : a < Word.bound) :
    (rebuilt m root n).translate root a =
      (if a % Linear.reach < identityEnd then .some (a % Linear.reach) else none) ∧
    ((Linear.ofNat a).isCanonical = true →
      (rebuilt m root n).translate root a = if a < identityEnd then .some a else none) := by
  obtain ⟨k, rfl⟩ : ∃ k, n = k + 1 := Nat.exists_eq_add_one.mpr some
  have exact' := translate_of_built (built_rebuilt m root k) placed a
  refine ⟨exact', fun canonical => exact'.trans ?_⟩
  have same := low_of_canonical word canonical
  by_cases low : a < identityEnd
  · have lower : a % Linear.reach = a := by
      apply Nat.mod_eq_of_lt
      exact Nat.lt_trans low (by decide)
    rw [if_pos (same.mpr low), if_pos low, lower]
  · rw [if_neg (mt same.mp low), if_neg low]

/-- The last address of the map leads to itself, the next nowhere, and the tables do not tell an
address that is not canonical from its lower 48 bits. -/
theorem translate_rebuilt_at_end :
    Placed 0x100 ∧ 0 < 3 ∧
      (rebuilt .zero 0x100 3).translate 0x100 (identityEnd - 1) = some (identityEnd - 1) ∧
      (rebuilt .zero 0x100 3).translate 0x100 identityEnd = none ∧
      (rebuilt .zero 0x100 3).translate 0x100 (0x1000000000000 + 5) = some 5 := by
  have placed : Placed 0x100 := Nat.le_of_ble_eq_true rfl
  have last := translate_rebuilt .zero 0x100 3 placed (by decide) (identityEnd - 1) (by decide)
  have past := translate_rebuilt .zero 0x100 3 placed (by decide) identityEnd (by decide)
  have wide := translate_rebuilt .zero 0x100 3 placed (by decide) (0x1000000000000 + 5) (by decide)
  exact ⟨placed, by decide, last.2 (by decide), past.2 (by decide), wide.1⟩

end IdentityMap

end Nucleus
