import Nucleus.Proofs.Paging.Paths

/-!
# Growth

What it means that a tree has grown: it has all it had before, and what it has beside that was free.

* `Grown`: what may happen to a tree while it grows.
* `Grown.wellFormed`, `Grown.trans`: then it is still well formed, and can grow further.
* `grown_below`: what grows below an entry grows below the whole table.
-/

namespace Nucleus
open Platform

namespace Entry

/-- Open to user code, for writing too. -/
def opened (e : Entry) : Entry := { e with writable := true, user := true }

/-- An entry for a new frame. -/
def made (f : Nat) : Entry := { zero.setPointer (f * frameBytes) with present := true }

/-- How an entry of a tree may change while the tree grows. -/
inductive Grows : Entry → Entry → Prop where
  | same (e : Entry) : Grows e e
  | opened {e : Entry} : e.present = true → Grows e e.opened
  | made (f : Nat) : Grows .zero (made f).opened

theorem Grows.eq_zero {e e' : Entry} (grows : Grows e e') (clear : e' = .zero) : e = .zero := by
  cases grows with
  | same => exact clear
  | opened _ => cases congrArg Entry.writable clear
  | made f => rfl

theorem Grows.trans {e e' e'' : Entry} (first : Grows e e') (second : Grows e' e'') :
    Grows e e'' := by
  cases second with
  | same => exact first
  | opened present =>
    cases first with
    | same => exact .opened present
    | opened before => exact .opened before
    | made f => exact .made f
  | made f =>
    rw [first.eq_zero rfl]
    exact .made f

theorem Grows.absent {e e' : Entry} (grows : Grows e e') (clear : e.present = false → e = .zero)
    (absent : e'.present = false) : e' = .zero := by
  cases grows with
  | same => exact clear absent
  | opened present =>
    have still : e.opened.present = e.present := rfl
    rw [still, present] at absent
    cases absent
  | made f => cases absent

theorem Grows.huge {e e' : Entry} (grows : Grows e e') : e'.huge = e.huge := by
  cases grows <;> rfl

end Entry

namespace Store
variable {s s' s'' : Store} {level table child : Nat} {i : Fin 512}

/-- From `s` to `s'` the tree below a table has grown. -/
structure Grown (level table : Nat) (s s' : Store) : Prop where
  capacity : s'.frames.capacity = s.frames.capacity
  /-- What a path led to it leads to still, and what is new was free. -/
  keeps : ∀ p f, s.memory.follow level table p = some f → s'.memory.follow level table p = some f
  fresh : ∀ p f, s'.memory.follow level table p = some f →
    s.memory.follow level table p = some f ∨ s.frames.isTaken f = false
  unique : ∀ p q f, s'.memory.follow level table p = some f →
    s'.memory.follow level table q = some f → p = q
  taken : ∀ f, s'.frames.isTaken f = true ↔
    s.frames.isTaken f = true ∨ ∃ p, s'.memory.follow level table p = some f
  /-- Only the tables of the tree and new frames are written to. -/
  touched : ∀ g i, s'.memory.entry g i = s.memory.entry g i ∨
    (∃ p, p.length < level ∧ s.memory.follow level table p = some g) ∨
      s.frames.isTaken g = false ∧ s'.frames.isTaken g = true
  old : ∀ p g, s.memory.follow level table p = some g → p.length < level →
    ∀ i, Entry.Grows (s.memory.entry g i) (s'.memory.entry g i)
  new : ∀ p g, s'.memory.follow level table p = some g → s.frames.isTaken g = false →
    ∀ i, Entry.Grows .zero (s'.memory.entry g i) ∧
      (p.length = level → s'.memory.entry g i = .zero)

theorem Grown.refl (well : s.WellFormed level table) : Grown level table s s where
  capacity := rfl
  keeps _ _ leads := leads
  fresh _ _ leads := .inl leads
  unique := well.unique
  taken f := ⟨.inl, fun h => h.elim id fun ⟨p, leads⟩ => well.taken p f leads⟩
  touched _ _ := .inl rfl
  old _ _ _ _ _ := .same _
  new _ _ leads free := absurd free (well.not_free leads)

theorem Grown.mono (grown : Grown level table s s') {f : Nat} (free : s'.frames.isTaken f = false) :
    s.frames.isTaken f = false := by
  cases before : s.frames.isTaken f with
  | false => rfl
  | true =>
    rw [(grown.taken f).mpr (.inl before)] at free
    cases free

theorem Grown.wellFormed (grown : Grown level table s s') (well : s.WellFormed level table) :
    s'.WellFormed level table := by
  refine ⟨grown.unique, fun p f leads => (grown.taken f).mpr (.inr ⟨p, leads⟩), ?absent⟩
  case absent =>
    intro p g leads short i absent
    rcases grown.fresh p g leads with before | free
    · exact (grown.old p g before short i).absent (well.absent p g before short i) absent
    · exact (grown.new p g leads free i).1.absent (fun _ => rfl) absent

theorem Grown.trans (first : Grown level table s s') (second : Grown level table s' s'') :
    Grown level table s s'' := by
  refine ⟨second.capacity.trans first.capacity, fun p f leads => second.keeps p f (first.keeps p f
    leads), fun p f leads => ?fresh, second.unique, fun f => ?taken, fun g i => ?touched,
    fun p g leads short i => ?old, fun p g leads free i => ?new⟩
  case fresh =>
    rcases second.fresh p f leads with between | free
    · exact first.fresh p f between
    · exact .inr (first.mono free)
  case taken =>
    rw [second.taken, first.taken, or_assoc]
    refine or_congr Iff.rfl ⟨fun h => h.elim (fun ⟨p, leads⟩ => ?_) id, .inr⟩
    exact ⟨p, second.keeps p f leads⟩
  case touched =>
    rcases first.touched g i with same | table | new
    · rcases second.touched g i with same' | ⟨p, short, leads⟩ | ⟨free, taken⟩
      · exact .inl (same'.trans same)
      · rcases first.fresh p g leads with before | free
        · exact .inr (.inl ⟨p, short, before⟩)
        · exact .inr (.inr ⟨free, (second.taken g).mpr (.inr ⟨p, second.keeps p g leads⟩)⟩)
      · exact .inr (.inr ⟨first.mono free, taken⟩)
    · exact .inr (.inl table)
    · exact .inr (.inr ⟨new.1, (second.taken g).mpr (.inl new.2)⟩)
  case old =>
    exact (first.old p g leads short i).trans (second.old p g (first.keeps p g leads) short i)
  case new =>
    cases between : s'.frames.isTaken g with
    | false => exact second.new p g leads between i
    | true =>
      -- then `g` came with the first growth, and the second one treats it as old
      obtain taken | ⟨q, before⟩ := (first.taken g).mp between
      · rw [taken] at free
        cases free
      obtain rfl := second.unique q p g (second.keeps q g before) leads
      obtain ⟨grows, page⟩ := first.new q g before free i
      by_cases short : q.length < level
      · refine ⟨grows.trans (second.old q g before short i), fun full => ?_⟩
        exact absurd full (Nat.ne_of_lt short)
      · -- a page is not written to again
        have same : s''.memory.entry g i = s'.memory.entry g i := by
          rcases second.touched g i with same | ⟨p, short', leads'⟩ | ⟨free', -⟩
          · exact same
          · cases first.unique p q g leads' before
            exact absurd short' short
          · rw [between] at free'
            cases free'
        rw [same]
        exact ⟨grows, page⟩

/-- Growth writes to no frame that was taken and is no part of the tree. -/
theorem Grown.entry_beside (grown : Grown level table s s') {g : Nat}
    (beside : ∀ p, s.memory.follow level table p ≠ some g) (taken : s.frames.isTaken g = true)
    (j : Fin 512) : s'.memory.entry g j = s.memory.entry g j := by
  rcases grown.touched g j with same | ⟨p, -, leads⟩ | ⟨free, -⟩
  · exact same
  · exact absurd leads (beside p)
  · rw [taken] at free
    cases free

/-! ## Below an entry -/

section
variable (well : s.WellFormed (level + 1) table)
  (linked : s.memory.link? (level + 1) table i = some child) (grown : Grown level child s s')
include well linked grown

theorem entry_above (j : Fin 512) : s'.memory.entry table j = s.memory.entry table j := by
  refine grown.entry_beside (fun p leads => ?_) (well.taken [] table Memory.follow_nil) j
  exact well.not_follow_root ((Memory.follow_link (i := i) linked).trans leads)

theorem follow_beside {j : Fin 512} (other : j ≠ i) (p : List (Fin 512)) :
    s'.memory.follow (level + 1) table (j :: p) = s.memory.follow (level + 1) table (j :: p) := by
  -- the paths through slot `j` meet no frame below slot `i`: such a frame would have two paths
  refine Memory.follow_slot (entry_above well linked grown j) (fun q g here k => ?_) p
  refine grown.entry_beside (fun q' leads' => ?_) (well.taken _ g here) k
  exact other (well.eq_of_follow here ((Memory.follow_link (i := i) linked).trans leads'))

theorem follow_into (p : List (Fin 512)) :
    s'.memory.follow (level + 1) table (i :: p) = s'.memory.follow level child p := by
  have top : s'.memory.link? (level + 1) table i = some child :=
    (Memory.link?_congr (entry_above well linked grown i)).trans linked
  exact Memory.follow_link top

/-- Whatever is new lies below the entry. -/
theorem fresh_above {p : List (Fin 512)} {f : Nat}
    (leads : s'.memory.follow (level + 1) table p = some f) :
    s.memory.follow (level + 1) table p = some f ∨ s.frames.isTaken f = false ∧
      ∃ q, p = i :: q ∧ s'.memory.follow level child q = some f := by
  cases p with
  | nil =>
    rw [Memory.follow_nil] at leads
    exact .inl (Memory.follow_nil.trans leads)
  | cons j p =>
    by_cases same : j = i
    · subst same
      rw [follow_into well linked grown] at leads
      rcases grown.fresh p f leads with before | free
      · exact .inl ((Memory.follow_link linked).trans before)
      · exact .inr ⟨free, p, rfl, leads⟩
    · rw [follow_beside well linked grown same] at leads
      exact .inl leads

/-- What grows below an entry grows below the whole table. -/
theorem grown_below : Grown (level + 1) table s s' := by
  have deeper : ∀ {p g}, s.memory.follow level child p = some g →
      s.memory.follow (level + 1) table (i :: p) = some g :=
    fun leads => (Memory.follow_link linked).trans leads
  refine ⟨grown.capacity, fun p f leads => ?keeps, fun p f leads => ?fresh,
    fun p q f hp hq => ?unique, fun f => ?taken, fun g j => ?touched,
    fun p g leads short j => ?old, fun p g leads free j => ?new⟩
  case keeps =>
    cases p with
    | nil =>
      rw [Memory.follow_nil] at leads
      exact Memory.follow_nil.trans leads
    | cons j p =>
      by_cases same : j = i
      · subst same
        rw [Memory.follow_link linked] at leads
        rw [follow_into well linked grown]
        exact grown.keeps p f leads
      · rw [follow_beside well linked grown same]
        exact leads
  case fresh => exact (fresh_above well linked grown leads).imp_right And.left
  case unique =>
    rcases fresh_above well linked grown hp with before | ⟨free, p, rfl, new⟩ <;>
      rcases fresh_above well linked grown hq with before' | ⟨free', q, rfl, new'⟩
    · exact well.unique p q f before before'
    · exact absurd free' (well.not_free before)
    · exact absurd free (well.not_free before')
    · rw [grown.unique p q f new new']
  case taken =>
    rw [grown.taken]
    constructor
    · rintro (taken | ⟨p, leads⟩)
      · exact .inl taken
      · exact .inr ⟨i :: p, (follow_into well linked grown p).trans leads⟩
    · rintro (taken | ⟨p, leads⟩)
      · exact .inl taken
      · rcases fresh_above well linked grown leads with before | ⟨-, q, -, new⟩
        · exact .inl (well.taken p f before)
        · exact .inr ⟨q, new⟩
  case touched =>
    rcases grown.touched g j with same | ⟨p, short, leads⟩ | new
    · exact .inl same
    · exact .inr (.inl ⟨i :: p, Nat.succ_lt_succ short, deeper leads⟩)
    · exact .inr (.inr new)
  case old =>
    rcases grown.touched g j with same | ⟨q, short', leads'⟩ | ⟨free, -⟩
    · rw [same]
      exact .same _
    · exact grown.old q g leads' short' j
    · exact absurd free (well.not_free leads)
  case new =>
    rcases fresh_above well linked grown leads with before | ⟨-, q, rfl, new⟩
    · exact absurd free (well.not_free before)
    · obtain ⟨grows, page⟩ := grown.new q g new free j
      exact ⟨grows, fun full => page (Nat.succ.inj full)⟩

end

end Store

end Nucleus
