import Nucleus.Proofs.Lock.Exclusion

/-!
# Masking

Several locks under the one interrupt flag. Masks, and guards of the locks that mask, come and go
in any order. A mask remembers how it found the flag and nothing else, so at most one of those that
are alive will let interrupts in again.

* `Masks`: the flag, and the masks that are alive.
* `Masks.Effect`, `effect_step`: what a step at one of the locks does to them.
* `Masks.Accounted`: the flag is set just if it was so at the start and no mask is alive that will
  set it again.
* `masked_iff_opener_last`: interrupts stay out while any mask is alive, if and only if the one that
  will let them in again is always the last to be dropped.
-/

namespace Nucleus

/-- The flag, and at each place the mask that is alive there. -/
@[ext]
structure Masks (P : Type) where
  flag : Interrupts
  alive? : P → Option Mask

namespace Masks
variable {P : Type}

/-- Interrupts are out if any mask is alive. -/
def Masked (a : Masks P) : Prop := ∀ p, a.alive? p ≠ none → a.flag.enabled = false

/-- If a mask that lets interrupts in again is dropped, no other one is alive. -/
def OpenerLast (a : Masks P) (dropped : Option P) : Prop :=
  ∀ p, dropped = some p → a.alive? p = some ⟨true⟩ → ∀ q, a.alive? q ≠ none → q = p

/-- What has come of the flag since it was as in `start`. -/
structure Accounted (start : Interrupts) (a : Masks P) : Prop where
  /-- One mask at the most will let interrupts in again. -/
  single : ∀ p q, a.alive? p = some ⟨true⟩ → a.alive? q = some ⟨true⟩ → p = q
  opened : ∀ p, a.alive? p = some ⟨true⟩ → start.enabled = true
  /-- While it is alive they are out. -/
  flag : a.flag.enabled = true ↔ start.enabled = true ∧ ∀ p, a.alive? p ≠ some ⟨true⟩

/-- Once no mask is alive the flag is as it was. -/
theorem Accounted.restored {start : Interrupts} {a : Masks P} (accounted : Accounted start a)
    (alone : ∀ p, a.alive? p = none) : a.flag = start := by
  have same : a.flag.enabled = start.enabled := by
    rw [Bool.eq_iff_iff, accounted.flag]
    simp [alone]
  exact congrArg Interrupts.mk same

variable [DecidableEq P]

/-- How the flag and the masks change in a step that drops the guard at a place, or none. -/
inductive Effect (a : Masks P) : Option P → Masks P → Prop where
  | quiet {dropped : Option P} (beside : ∀ p, dropped = some p → a.alive? p = none) :
      Effect a dropped a
  | masks {b : Masks P} (p : P) (unused : a.alive? p = none) (flag : b.flag = ⟨false⟩)
      (alive? : ∀ q, b.alive? q = if q = p then some ⟨a.flag.enabled⟩ else a.alive? q) :
      Effect a none b
  | unmasks {b : Masks P} (p : P) (m : Mask) (alive : a.alive? p = some m)
      (flag : b.flag = a.flag.unmask m)
      (alive? : ∀ q, b.alive? q = if q = p then none else a.alive? q) : Effect a (some p) b

variable {a b : Masks P} {dropped : Option P} {start : Interrupts}

/-- A step lets interrupts in under a living mask only by dropping another one, the one that had
turned them off. -/
theorem masked_effect_iff (masked : a.Masked) (effect : Effect a dropped b) :
    b.Masked ↔ a.OpenerLast dropped := by
  cases effect with
  | quiet beside =>
    apply iff_of_true masked
    intro p drops alive
    rw [beside p drops] at alive
    cases alive
  | masks p unused flag alive? => exact iff_of_true (fun _ _ => by rw [flag]) nofun
  | unmasks p m alive flag alive? =>
    have left : ∀ q, b.alive? q ≠ none ↔ a.alive? q ≠ none ∧ q ≠ p := by
      intro q
      rw [alive?]
      by_cases here : q = p <;> simp [here]
    obtain ⟨restores⟩ := m
    cases restores with
    | false =>
      apply iff_of_true
      · intro q there
        rw [flag]
        exact masked q ((left q).mp there).1
      · rintro _ ⟨⟩ opens
        rw [alive] at opens
        cases opens
    | true =>
      have opened : b.flag.enabled = true := by rw [flag]; rfl
      constructor
      · rintro shut _ ⟨⟩ - q there
        apply Decidable.byContradiction
        intro other
        have closed := shut q ((left q).mpr ⟨there, other⟩)
        rw [opened] at closed
        cases closed
      · intro last q there
        obtain ⟨there, other⟩ := (left q).mp there
        exact absurd (last p rfl alive q there) other

theorem accounted_effect (accounted : Accounted start a) (effect : Effect a dropped b) :
    Accounted start b := by
  obtain ⟨single, opened, law⟩ := accounted
  cases effect with
  | quiet => exact ⟨single, opened, law⟩
  | masks p unused flag alive? =>
    -- the new mask is to let interrupts in again just if no other one is
    have opens : ∀ q, b.alive? q = some ⟨true⟩ ↔
        (q = p ∧ a.flag.enabled = true) ∨ (q ≠ p ∧ a.alive? q = some ⟨true⟩) := by
      intro q
      rw [alive?]
      by_cases here : q = p <;> simp [here]
    constructor
    case single => grind
    case opened => grind
    case flag =>
      have shut : b.flag.enabled = false := by rw [flag]
      grind
  | unmasks p m alive flag alive? =>
    have opens : ∀ q, b.alive? q = some ⟨true⟩ ↔ q ≠ p ∧ a.alive? q = some ⟨true⟩ := by
      intro q
      rw [alive?]
      by_cases here : q = p <;> simp [here]
    obtain ⟨restores⟩ := m
    have now : b.flag.enabled = (restores || a.flag.enabled) := by
      rw [flag]
      cases restores <;> rfl
    constructor
    case single => grind
    case opened => grind
    case flag => cases restores <;> grind

end Masks

/-! ## Guards -/

/-- The mask that a guard holds. -/
def Guard.mask? : Guard → Option Mask
  | .lock => none
  | .maskedLock m | .mask m => some m

namespace Guards
variable {α : Type}

/-- Whether a step turns interrupts on or off without a guard. -/
def Step.switches : Step α → Bool
  | .enable | .disable => true
  | _ => false

/-- The place whose guard a step drops. -/
def Step.dropped? : Step α → Option Nat
  | .drop n => some n
  | _ => none

def masks (g : Guards α) : Masks Nat := ⟨g.interrupts, fun n => (g.guard? n).bind Guard.mask?⟩

theorem guard?_size (g : Guards α) : g.guard? g.places.size = none := by
  simp [guard?]

theorem guard?_keep (g : Guards α) (x : Guard) (n : Nat) :
    (g.keep x).guard? n = if n = g.places.size then some x else g.guard? n := by
  simp only [guard?, keep, Array.getElem?_push]
  split <;> rfl

theorem guard?_release (g : Guards α) (x : Guard) (n : Nat) :
    (g.release x).guard? n = g.guard? n := by
  cases x <;> rfl

theorem guard?_drop (g : Guards α) (k n : Nat) :
    (g.drop k).guard? n = if n = k then none else g.guard? n := by
  cases place : g.guard? k with
  | none =>
    simp only [drop, place]
    split
    · next same => rw [same, place]
    · rfl
  | some x =>
    simp only [drop, place, guard?_release]
    simp only [guard?, Array.getElem?_setIfInBounds, eq_comm (a := k)]
    split
    · split <;> rfl
    · rfl

theorem interrupts_release (g : Guards α) (x : Guard) :
    (g.release x).interrupts = x.mask?.elim g.interrupts g.interrupts.unmask := by
  cases x <;> rfl

theorem masks_congr {g d : Guards α} (flag : d.interrupts = g.interrupts)
    (places : ∀ n, (d.guard? n).bind Guard.mask? = (g.guard? n).bind Guard.mask?) :
    d.masks = g.masks := by
  simp only [masks, flag, places]

/-- A guard of the lock alone is no mask. -/
theorem masks_keep_lock {g d : Guards α} (flag : d.interrupts = g.interrupts)
    (places : d.places = g.places) : (d.keep .lock).masks = g.masks := by
  apply masks_congr (d := d.keep .lock) flag
  intro n
  have before : d.guard? n = g.guard? n := by rw [guard?, guard?, places]
  rw [guard?_keep, places, before]
  split
  · next same => rw [same, guard?_size]; rfl
  · rfl

/-- A guard that masks is kept with the mask that was made for it. -/
theorem effect_keep {g d : Guards α} {x : Guard} (places : d.places = g.places)
    (flag : d.interrupts = g.interrupts.mask.2) (holds : x.mask? = some g.interrupts.mask.1) :
    g.masks.Effect none (d.keep x).masks := by
  apply Masks.Effect.masks g.places.size
  case unused => simp only [masks, guard?_size, Option.bind_none]
  case flag =>
    have shut := g.interrupts.enabled_mask
    rw [← flag] at shut
    exact congrArg Interrupts.mk shut
  case alive? =>
    intro n
    have before : d.guard? n = g.guard? n := by rw [guard?, guard?, places]
    simp only [masks, guard?_keep, places, before]
    split
    · exact holds
    · rfl

theorem effect_drop (g : Guards α) (n : Nat) : g.masks.Effect (some n) (g.drop n).masks := by
  have left (k : Nat) : (g.drop n).masks.alive? k = if k = n then none else g.masks.alive? k := by
    simp only [masks, guard?_drop]
    split <;> rfl
  cases here : g.masks.alive? n with
  | none =>
    have flag : (g.drop n).interrupts = g.interrupts := by
      cases place : g.guard? n with
      | none => simp only [drop, place]
      | some x =>
        simp only [masks, place, Option.bind_some] at here
        simp only [drop, place, interrupts_release, here, Option.elim_none]
    have same : (g.drop n).masks = g.masks := by
      apply masks_congr flag
      intro k
      apply (left k).trans
      split
      · next same => rw [same]; exact here.symm
      · rfl
    rw [same]
    apply Masks.Effect.quiet
    rintro _ ⟨⟩
    exact here
  | some m =>
    obtain ⟨x, place, holds⟩ := Option.bind_eq_some_iff.mp here
    have flag : (g.drop n).interrupts = g.interrupts.unmask m := by
      simp only [drop, place, interrupts_release, holds, Option.elim_some]
    exact .unmasks n m here flag left

theorem effect_step (g : Guards α) {s : Step α} (still : s.switches = false) :
    g.masks.Effect s.dropped? (g.step s).2.masks := by
  have quiet {d : Guards α} (same : d.masks = g.masks) : g.masks.Effect none d.masks :=
    same ▸ .quiet nofun
  cases s with
  | tryLock =>
    simp only [step]
    split
    · exact quiet (masks_keep_lock rfl rfl)
    · exact quiet rfl
  | lock => exact quiet (masks_keep_lock rfl rfl)
  | lockMasked | mask => exact effect_keep rfl rfl rfl
  | drop n => exact effect_drop g n
  | get n =>
    simp only [step]
    split <;> exact quiet rfl
  | set n a =>
    simp only [step]
    split
    · split <;> exact quiet rfl
    · exact quiet rfl
  | withLock a | withLockPanic a | without | withoutPanic =>
    exact quiet (masks_congr g.interrupts.unmask_mask fun _ => rfl)
  | enable | disable => cases still

end Guards

/-! ## Locks -/

/-- Locks under one interrupt flag. Each keeps the guards that were made at it; a mask that goes
with no lock is made at any of them. -/
structure Locks (ι α : Type) where
  interrupts : Interrupts
  lock : ι → SpinLock α
  places : ι → Array (Option Guard)

namespace Locks
variable {ι α : Type}

/-- One of the locks, as if there were no other. -/
def only (l : Locks ι α) (i : ι) : Guards α := ⟨l.lock i, l.interrupts, l.places i⟩

def masks (l : Locks ι α) : Masks (ι × Nat) :=
  ⟨l.interrupts, fun p => (l.only p.1).masks.alive? p.2⟩

variable [DecidableEq ι]

/-- What is left of one of the locks is put back to the others. -/
def put (l : Locks ι α) (i : ι) (g : Guards α) : Locks ι α where
  interrupts := g.interrupts
  lock j := if j = i then g.lock else l.lock j
  places j := if j = i then g.places else l.places j

/-- A step at one of the locks. -/
def step (l : Locks ι α) (i : ι) (s : Guards.Step α) : Locks ι α := l.put i ((l.only i).step s).2

/-- `P` holds of every step of a run and of what it is done to. -/
def Each (P : Locks ι α → ι → Guards.Step α → Prop) : Locks ι α → List (ι × Guards.Step α) → Prop
  | _, [] => True
  | l, (i, s) :: rest => P l i s ∧ Each P (l.step i s) rest

variable {l : Locks ι α} {i : ι} {s : Guards.Step α}

theorem alive?_put (l : Locks ι α) (i : ι) (g : Guards α) (p : ι × Nat) :
    (l.put i g).masks.alive? p = if p.1 = i then g.masks.alive? p.2 else l.masks.alive? p := by
  simp only [masks, Guards.masks, Guards.guard?, only, put]
  split <;> rfl

/-- What happens at one of the locks happens to all of them. -/
theorem effect_put {g : Guards α} {dropped : Option Nat}
    (effect : (l.only i).masks.Effect dropped g.masks) :
    l.masks.Effect (dropped.map fun n => (i, n)) (l.put i g).masks := by
  have alive := alive?_put l i g
  have flag : (l.put i g).masks.flag = g.masks.flag := rfl
  generalize g.masks = b at effect alive flag
  -- the places of the other locks are all as they were
  have change {n : Nat} {m : Option Mask}
      (atLock : ∀ k, b.alive? k = if k = n then m else (l.only i).masks.alive? k)
      (p : ι × Nat) : (l.put i g).masks.alive? p = if p = (i, n) then m else l.masks.alive? p := by
    obtain ⟨j, k⟩ := p
    by_cases here : j = i
    · subst here
      simp only [alive, if_true, atLock, Prod.mk.injEq, true_and]
      rfl
    · simp [alive, here]
  cases effect with
  | quiet beside =>
    have kept : (l.put i g).masks = l.masks := by
      apply Masks.ext flag
      funext p
      rw [alive]
      split
      · next here => rw [← here]; rfl
      · rfl
    rw [kept]
    apply Masks.Effect.quiet
    intro p drops
    obtain ⟨n, dropped, rfl⟩ := Option.map_eq_some_iff.mp drops
    exact beside n dropped
  | masks n unused shut atLock => exact .masks (i, n) unused (flag.trans shut) (change atLock)
  | unmasks n m here opened atLock =>
    exact .unmasks (i, n) m here (flag.trans opened) (change atLock)

theorem effect_step (l : Locks ι α) (i : ι) (still : s.switches = false) :
    l.masks.Effect (s.dropped?.map fun n => (i, n)) (l.step i s).masks :=
  effect_put ((l.only i).effect_step still)

/-! ## Runs -/

/-- Interrupts are out after a step if any mask is alive then. -/
def MaskedAfter (l : Locks ι α) (i : ι) (s : Guards.Step α) : Prop := (l.step i s).masks.Masked

/-- If a step drops the mask that lets interrupts in again, no other one is alive. -/
def DropsOpenerLast (l : Locks ι α) (i : ι) (s : Guards.Step α) : Prop :=
  l.masks.OpenerLast (s.dropped?.map fun n => (i, n))

/-- After a step the flag is accounted for, and as it was in `start` if no mask is alive. -/
def AccountedAfter (start : Interrupts) (l : Locks ι α) (i : ι) (s : Guards.Step α) : Prop :=
  (l.step i s).masks.Accounted start ∧
    ((∀ p, (l.step i s).masks.alive? p = none) → (l.step i s).interrupts = start)

theorem each_masked_iff {steps : List (ι × Guards.Step α)}
    (still : ∀ p ∈ steps, p.2.switches = false) : ∀ {l : Locks ι α}, l.masks.Masked →
      (Each MaskedAfter l steps ↔ Each DropsOpenerLast l steps) := by
  induction steps with
  | nil => exact fun _ => Iff.rfl
  | cons p rest ih =>
    intro l masked
    have now := Masks.masked_effect_iff masked (l.effect_step p.1 (still p (.head rest)))
    constructor
    · rintro ⟨first, later⟩
      exact ⟨now.mp first, (ih (fun q there => still q (.tail p there)) first).mp later⟩
    · rintro ⟨first, later⟩
      have first := now.mpr first
      exact ⟨first, (ih (fun q there => still q (.tail p there)) first).mpr later⟩

theorem each_accounted {start : Interrupts} {steps : List (ι × Guards.Step α)}
    (still : ∀ p ∈ steps, p.2.switches = false) :
    ∀ {l : Locks ι α}, l.masks.Accounted start → Each (AccountedAfter start) l steps := by
  induction steps with
  | nil => exact fun _ => trivial
  | cons p rest ih =>
    intro l accounted
    have now := Masks.accounted_effect accounted (l.effect_step p.1 (still p (.head rest)))
    exact ⟨⟨now, now.restored⟩, ih (fun q there => still q (.tail p there)) now⟩

/-- **Masking, exactly.** Let masks and guards be made and dropped in any order, at any number of
locks, and nothing else turn interrupts on or off. Then interrupts are out at every moment at which
a mask is alive, if and only if the mask that lets them in again is always the last one alive when
it is dropped. There is never more than one such mask, interrupts are out as long as it is alive,
and whenever none is alive the flag is as it was before the first. -/
theorem masked_iff_opener_last (l : Locks ι α) (steps : List (ι × Guards.Step α))
    (fresh : ∀ p, l.masks.alive? p = none) (still : ∀ p ∈ steps, p.2.switches = false) :
    (Each MaskedAfter l steps ↔ Each DropsOpenerLast l steps) ∧
      Each (AccountedAfter l.interrupts) l steps := by
  have masked : l.masks.Masked := fun p there => absurd (fresh p) there
  have accounted : l.masks.Accounted l.interrupts := by
    constructor
    case single => simp [fresh]
    case opened => simp [fresh]
    case flag =>
      refine ⟨fun on => ⟨on, fun p opens => ?_⟩, And.left⟩
      rw [fresh] at opens
      cases opens
  exact ⟨each_masked_iff still masked, each_accounted still accounted⟩

/-- Two locks are taken one after the other and given back in turn, with a mask in between. -/
theorem masked_in_turn :
    let l : Locks Bool Nat := ⟨⟨true⟩, fun _ => .new 7, fun _ => #[]⟩
    let run : List (Bool × Guards.Step Nat) :=
      [(false, .lockMasked), (true, .lockMasked), (true, .drop 0), (false, .mask), (false, .drop 1),
        (false, .drop 0)]
    (∀ p, l.masks.alive? p = none) ∧ (∀ p ∈ run, p.2.switches = false) ∧
      Each MaskedAfter l run ∧ Each DropsOpenerLast l run ∧ Each (AccountedAfter ⟨true⟩) l run := by
  intro l run
  have fresh : ∀ p, l.masks.alive? p = none := fun _ => rfl
  have still : ∀ p ∈ run, p.2.switches = false := by decide
  obtain ⟨exactly, accounted⟩ := masked_iff_opener_last l run fresh still
  have masked : Each MaskedAfter l run := by
    -- the flag is set after the last step alone, and then no mask is alive
    refine ⟨fun _ _ => rfl, fun _ _ => rfl, fun _ _ => rfl, fun _ _ => rfl, fun _ _ => rfl, ?_,
      trivial⟩
    rintro ⟨_ | _, _ | _ | n⟩ there <;> exact absurd rfl there
  exact ⟨fresh, still, masked, exactly.mp masked, accounted⟩

/-- A mask is dropped before the guard of a lock that was made under it. -/
theorem unmasked_under_guard :
    let l : Locks Unit Nat := ⟨⟨true⟩, fun _ => .new 7, fun _ => #[]⟩
    let run : List (Unit × Guards.Step Nat) := [((), .mask), ((), .lockMasked), ((), .drop 0)]
    (∀ p, l.masks.alive? p = none) ∧ (∀ p ∈ run, p.2.switches = false) ∧
      ¬ Each MaskedAfter l run := by
  intro l run
  refine ⟨fun _ => rfl, by decide, fun masked => ?_⟩
  have out := masked.2.2.1 ((), 1) (by decide)
  cases out

end Locks

end Nucleus
