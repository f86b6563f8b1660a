import Nucleus.Lock.Guards

/-!
# Exclusion

Runs of one lock and of its guards: attempts, locking while the lock is open, and guards dropped
in any order, together with everything else that can be done to them.

* `step_sound`, `after_sound`: as long as no attempt meets a living guard, the lock is held
  exactly while its one guard is alive.
* `held_after_attempt`: an attempt turns the lock over, whoever holds it.
* `exclusive_iff_uncontended`: exclusion holds along a run if and only if no attempt of the run is
  made while a guard of the lock is alive.
-/

namespace Nucleus.Guards
variable {α : Type}

/-- How many guards of the lock are alive. -/
def alive (g : Guards α) : Nat := g.places.countP fun p => p.any Guard.opensLock

/-- Whether an attempt is answered with a guard. -/
def grants (g : Guards α) : Bool :=
  match (g.step .tryLock).1 with
  | .place n => n.isSome
  | _ => false

/-- A step that would wait for the lock is made only while the lock is open. -/
def Enabled (g : Guards α) : Step α → Prop
  | .lock | .lockMasked | .withLock _ | .withLockPanic _ => g.lock.held = false
  | _ => True

/-- The guards and the lock at the end of a run. -/
def after (g : Guards α) (steps : List (Step α)) : Guards α :=
  steps.foldl (fun g s => (g.step s).2) g

/-- `P` holds of every step of a run and of what it is done to. -/
def Throughout (P : Guards α → Step α → Prop) (g : Guards α) (steps : List (Step α)) : Prop :=
  ∀ pre s post, steps = pre ++ s :: post → P (g.after pre) s

/-- No attempt of a run is made while a guard of the lock is alive. -/
def Uncontended : Guards α → List (Step α) → Prop :=
  Throughout fun g s => s = .tryLock → g.alive = 0

/-- Mutual exclusion along a run. -/
structure Exclusive (g : Guards α) (steps : List (Step α)) : Prop where
  single : ∀ pre post, steps = pre ++ post → (g.after pre).alive ≤ 1
  /-- An attempt gets a guard exactly when no guard is alive. -/
  grants_iff : ∀ pre post, steps = pre ++ .tryLock :: post →
    ((g.after pre).grants = true ↔ (g.after pre).alive = 0)
  /-- A failed attempt leaves the lock to its holder. -/
  keeps : ∀ pre post, steps = pre ++ .tryLock :: post → (g.after pre).grants = false →
    (g.after (pre ++ [.tryLock])).lock.held = true
  /-- After a failed attempt every later one fails too, until the holder drops its guard. -/
  persists : ∀ pre mid post n x, steps = pre ++ .tryLock :: (mid ++ .tryLock :: post) →
    (g.after pre).grants = false → (g.after pre).guard? n = some x → x.opensLock = true →
    .drop n ∉ mid → (g.after (pre ++ .tryLock :: mid)).grants = false

/-- The lock is held exactly while its one guard is alive. -/
def Sound (g : Guards α) : Prop := g.alive = g.lock.held.toNat

/-! ## One step -/

theorem alive_keep (g : Guards α) (x : Guard) :
    (g.keep x).alive = g.alive + x.opensLock.toNat := by
  simp only [alive, keep, Array.countP_push, Option.any_some]
  split
  case isTrue opens => simp only [opens, Bool.toNat_true]
  case isFalse opens => simp only [opens, Bool.toNat_false]

theorem alive_release (g : Guards α) (x : Guard) : (g.release x).alive = g.alive := by
  cases x <;> rfl

theorem held_release (g : Guards α) (x : Guard) :
    (g.release x).lock.held = (g.lock.held && !x.opensLock) := by
  cases x <;> simp [release, SpinLock.unlock, Guard.opensLock]

/-- A dropped guard is one less of those that are alive. -/
theorem alive_drop {g : Guards α} {n : Nat} {x : Guard} (h : g.guard? n = some x) :
    (g.drop n).alive + x.opensLock.toNat = g.alive := by
  obtain ⟨bound, place⟩ := Array.getElem?_eq_some_iff.mp (Option.join_eq_some_iff.mp h)
  have counted : x.opensLock.toNat ≤ g.alive := by
    cases opens : x.opensLock
    · exact Nat.zero_le _
    · exact Array.countP_pos_iff.mpr ⟨_, Array.getElem_mem bound, by simp [place, opens]⟩
  simp only [drop, h, alive_release]
  simp only [alive, Array.setIfInBounds, bound, dif_pos, Array.countP_set, place, Option.any_some,
    Option.any_none, Bool.false_eq_true, if_false, Nat.add_zero] at counted ⊢
  cases opens : x.opensLock
  · simp
  · simp only [opens, Bool.toNat_true] at counted
    simp only [if_true, Bool.toNat_true]
    omega

theorem held_drop {g : Guards α} {n : Nat} {x : Guard} (h : g.guard? n = some x) :
    (g.drop n).lock.held = (g.lock.held && !x.opensLock) := by
  simp only [drop, h, held_release]

/-- An attempt turns the lock over, whoever holds it. -/
theorem held_after_attempt (g : Guards α) :
    g.grants = !g.lock.held ∧ (g.step .tryLock).2.lock.held = !g.lock.held := by
  unfold grants step
  cases held : g.lock.held
  · simp [SpinLock.tryLock_of_open held, keep]
  · simp [SpinLock.tryLock_of_held held, SpinLock.unlock]

theorem lock_of_open {g : Guards α} (h : g.lock.held = false) :
    g.lock.lock = { g.lock with held := true } := by
  simp only [SpinLock.lock, SpinLock.tryLock_of_open h]

/-- A guard that is made while none is alive holds the lock on its own. -/
theorem sound_keep {g : Guards α} {x : Guard} (none_alive : g.alive = 0)
    (held : g.lock.held = x.opensLock) : (g.keep x).Sound := by
  have bit : (g.keep x).lock.held = x.opensLock := held
  rw [Sound, alive_keep, none_alive, bit, Nat.zero_add]

theorem sound_drop {g : Guards α} (sound : g.Sound) (n : Nat) : (g.drop n).Sound := by
  cases place : g.guard? n with
  | none => simpa only [drop, place] using sound
  | some x =>
    have count := alive_drop place
    unfold Sound at sound ⊢
    rw [held_drop place]
    cases opens : x.opensLock <;> cases held : g.lock.held <;>
      simp only [opens, held, Bool.toNat_true, Bool.toNat_false, Bool.not_true, Bool.not_false,
        Bool.and_true, Bool.and_false] at sound count ⊢ <;> omega

/-- A step keeps the lock sound, unless it is an attempt while a guard is alive. -/
theorem step_sound {g : Guards α} (sound : g.Sound) {s : Step α} (enabled : g.Enabled s)
    (calm : s = .tryLock → g.alive = 0) : (g.step s).2.Sound := by
  have free (h : g.lock.held = false) : g.alive = 0 := by rw [sound, h]; rfl
  cases s with
  | tryLock =>
    have isOpen : g.lock.held = false := by
      have none_alive := calm rfl
      rw [sound] at none_alive
      simpa using none_alive
    simp only [step, SpinLock.tryLock_of_open isOpen]
    exact sound_keep (free isOpen) rfl
  | lock =>
    simp only [step, lock_of_open enabled]
    exact sound_keep (free enabled) rfl
  | lockMasked =>
    simp only [step, takeMasked, lock_of_open enabled]
    exact sound_keep (free enabled) rfl
  | mask =>
    simp only [step, Sound, alive_keep]
    exact sound
  | drop n => exact sound_drop sound n
  | get n =>
    simp only [step]
    split <;> exact sound
  | set n a =>
    simp only [step]
    split
    · split <;> exact sound
    · exact sound
  | withLock a | withLockPanic a =>
    have none_alive := free enabled
    exact none_alive
  | without | withoutPanic => exact sound
  | enable | disable => exact sound

/-! ## Runs -/

theorem after_append (g : Guards α) (pre post : List (Step α)) :
    g.after (pre ++ post) = (g.after pre).after post := List.foldl_append

theorem throughout_nil (P : Guards α → Step α → Prop) (g : Guards α) : Throughout P g [] := by
  intro pre s post parts
  simp at parts

theorem throughout_cons {P : Guards α → Step α → Prop} {g : Guards α} {s : Step α}
    {rest : List (Step α)} :
    Throughout P g (s :: rest) ↔ P g s ∧ Throughout P (g.step s).2 rest := by
  constructor
  · intro h
    refine ⟨h [] s rest rfl, fun pre t post parts => h (s :: pre) t post ?_⟩
    rw [parts, List.cons_append]
  · rintro ⟨now, later⟩ pre t post parts
    cases pre with
    | nil =>
      obtain ⟨rfl, -⟩ := List.cons.inj parts
      exact now
    | cons u pre =>
      obtain ⟨rfl, inner⟩ := List.cons.inj parts
      exact later pre t post inner

theorem Throughout.initial {P : Guards α → Step α → Prop} {g : Guards α}
    {pre post : List (Step α)} (h : Throughout P g (pre ++ post)) : Throughout P g pre :=
  fun p t q parts => h p t (q ++ post) (by rw [parts]; simp)

theorem after_sound {steps : List (Step α)} : ∀ {g : Guards α}, g.Sound →
    Throughout Enabled g steps → Uncontended g steps → (g.after steps).Sound := by
  induction steps with
  | nil => exact fun sound _ _ => sound
  | cons s rest ih =>
    intro g sound enabled calm
    obtain ⟨now, later⟩ := throughout_cons.mp enabled
    obtain ⟨calmNow, calmLater⟩ := throughout_cons.mp calm
    exact ih (step_sound sound now calmNow) later calmLater

theorem new_sound (a : α) : (new a).Sound := rfl

theorem uncontended_of_exclusive {g : Guards α} {steps : List (Step α)}
    (exclusive : Exclusive g steps) : Uncontended g steps := by
  rintro pre _ post parts rfl
  cases granted : (g.after pre).grants with
  | true => exact (exclusive.grants_iff pre post parts).mp granted
  | false =>
    have kept := exclusive.keeps pre post parts granted
    obtain ⟨answer, turned⟩ := held_after_attempt (g.after pre)
    rw [after_append] at kept
    have opened : ((g.after pre).step .tryLock).2.lock.held = false := by
      rw [turned, ← answer, granted]
    rw [after, List.foldl_cons, List.foldl_nil, opened] at kept
    cases kept

theorem exclusive_of_uncontended {g : Guards α} {steps : List (Step α)} (sound : g.Sound)
    (enabled : Throughout Enabled g steps) (calm : Uncontended g steps) :
    Exclusive g steps := by
  have along (pre post : List (Step α)) (parts : steps = pre ++ post) : (g.after pre).Sound := by
    subst parts
    exact after_sound sound enabled.initial calm.initial
  have granted (pre post : List (Step α)) (parts : steps = pre ++ .tryLock :: post) :
      (g.after pre).grants = true := by
    have free := calm pre _ post parts rfl
    rw [along pre _ parts] at free
    rw [(held_after_attempt _).1]
    simpa using free
  refine ⟨?single, ?grants_iff, ?keeps, ?persists⟩
  case single =>
    intro pre post parts
    rw [along pre post parts]
    exact Bool.toNat_le _
  case grants_iff =>
    intro pre post parts
    simp only [granted pre post parts, calm pre _ post parts rfl]
  case keeps =>
    intro pre post parts refused
    simp [granted pre post parts] at refused
  case persists =>
    intro pre mid post n x parts refused
    simp [granted pre _ parts] at refused

/-- **Exclusion, exactly.** Along a run that never waits, the lock excludes if and only if no
attempt is made while a guard of it is alive. Every attempt turns the lock over: one that is
refused opens the lock under its holder, and the next one is granted. -/
theorem exclusive_iff_uncontended (a : α) (steps : List (Step α))
    (enabled : Throughout Enabled (new a) steps) :
    (Exclusive (new a) steps ↔ Uncontended (new a) steps) ∧
    ∀ pre post, steps = pre ++ .tryLock :: post →
      ((new a).after pre).grants = !((new a).after pre).lock.held ∧
      ((new a).after (pre ++ [.tryLock])).lock.held = !((new a).after pre).lock.held := by
  refine ⟨⟨uncontended_of_exclusive, exclusive_of_uncontended (new_sound a) enabled⟩, ?_⟩
  intro pre post _
  rw [after_append]
  exact held_after_attempt _

/-- The lock changes hands twice, and the second holder leaves the interrupts as they were. -/
theorem exclusive_handover :
    let run : List (Step Nat) := [.tryLock, .drop 0, .lockMasked, .set 1 8, .drop 1, .tryLock]
    Throughout Enabled (new 7) run ∧ Exclusive (new 7) run := by
  have enabled : Throughout Enabled (new 7)
      [.tryLock, .drop 0, .lockMasked, .set 1 8, .drop 1, .tryLock] := by
    simp only [throughout_cons, throughout_nil, Enabled, true_and, and_true]
    rfl
  refine ⟨enabled, (exclusive_iff_uncontended 7 _ enabled).1.mpr ?_⟩
  simp only [Uncontended, throughout_cons, throughout_nil, reduceCtorEq, false_implies,
    true_implies, true_and, and_true]
  decide

/-- Three attempts in a row give out two guards. -/
theorem two_holders :
    let run : List (Step Nat) := [.tryLock, .tryLock, .tryLock]
    Throughout Enabled (new 7) run ∧ ((new 7).after run).alive = 2 ∧ ¬ Exclusive (new 7) run := by
  refine ⟨?_, by decide, fun exclusive => ?_⟩
  · simp only [throughout_cons, throughout_nil, Enabled, and_self]
  · have single := exclusive.single _ [] (List.append_nil _).symm
    revert single
    decide

end Nucleus.Guards
