import Nucleus.Proofs.Core.Runs
import Nucleus.Proofs.Paging.Faults
import Nucleus.Proofs.Paging.Ownership

/-!
# Faults of the executing task

A page fault reaches the store with the window of the executing task and the root of the active
tree, and with nothing else of the core.

* `eval_pageFault`, `eval_faultTrap`: what a fault and its trap come to.
* `fault_confined`: what a fault may change, and when the faulting code goes on.
-/

namespace Nucleus.Core
open Platform

/-- The frames of a core, and its physical memory. -/
def store (c : Core) : Store := ⟨c.frames.value, c.memory⟩

/-- What the store makes of a fault. -/
def resolve (c : Core) (code address : Nat) : Except PagingError Unit × Store :=
  (c.store.handleFault c.root (.ofNat code) address (executingWindow c.tasks.value)).value

/-- How the trap of a fault ends. -/
def trapAnswer : Except PagingError Unit → Answer
  | .ok () => .done
  | .error _ => .halted

variable {c : Core}

theorem exists_withFrames {α : Type} (f : Store → Logged (α × Store)) (c : Core) :
    ∃ d, eval (withFrames f) c = .ok ((f c.store).value.1, d) ∧
      d.store = (f c.store).value.2 :=
  ⟨_, eval_withFrames f c, rfl⟩

/-- A fault of the executing task is left to the store. -/
theorem eval_pageFault (c : Core) (code address : Nat) :
    ∃ c', eval (pageFault code address) c = .ok ((c.resolve code address).1, c') ∧
      c'.store = (c.resolve code address).2 := by
  rw [pageFault, eval_bind, eval_withTasks]
  simp only [Except.bind, Logged.value_pure]
  -- the look at the tasks leaves the store and the active tree alone
  generalize looked : ({ c with tasks := _, events := _ } : Core) = b
  have store : b.store = c.store := by rw [← looked]; rfl
  have root : b.root = c.root := by rw [← looked]; rfl
  rw [eval_bind, eval_get]
  simp only [Except.bind, root]
  obtain ⟨d, ran, left⟩ := exists_withFrames _ b
  rw [store] at ran left
  refine ⟨d, ran.trans ?_, left.trans ?_⟩ <;> rw [Logged.value_bind, resolve] <;>
    rcases (c.store.handleFault c.root (.ofNat code) address (executingWindow c.tasks.value)).value
      with ⟨_ | ⟨⟩, s⟩ <;> rfl

/-- The trap of a fault goes back to the faulting code if the store has resolved it. -/
theorem eval_faultTrap (installed : c.installed = true) (away : CoreM Unit) (code address : Nat) :
    ∃ c', eval (call away (.faultTrap code address)) c =
        .ok (trapAnswer (c.resolve code address).1, c') ∧
      c'.store = (c.resolve code address).2 := by
  obtain ⟨d, ran, left⟩ :=
    eval_pageFault { c with interrupts := c.interrupts.mask.2 } code address
  have resolved : resolve { c with interrupts := c.interrupts.mask.2 } code address =
      c.resolve code address := rfl
  rw [resolved] at ran left
  rw [installed] at ran
  rw [call, eval_bind, eval_masked, faultTrap, eval_bind, eval_get]
  simp only [Except.bind, installed, if_true]
  rw [eval_bind, ran]
  simp only [Except.bind]
  rcases done : c.resolve code address with ⟨_ | ⟨⟩, s⟩ <;> rw [done] at left <;>
    exact ⟨_, rfl, left⟩

/-- The outcome of a fault does not depend on the rest of the core. -/
theorem resolve_congr {d : Core} (store : d.store = c.store) (root : d.root = c.root)
    (window : executingWindow d.tasks.value = executingWindow c.tasks.value) (code address : Nat) :
    d.resolve code address = c.resolve code address := by
  rw [resolve, resolve, store, root, window]

/-- **Faults are confined.** Let the active tree be well formed. A fault is resolved only if no page
was present and the address lies in the window of the task that executes, and then at most the page
of the address has come to be backed, by a cleared frame that was free. The two refusals come just
when the access itself was not allowed, or when the address lies outside the window, and change
nothing. All this depends on no other task and not on the low bits of `cr3`. The trap returns to the
faulting code if the fault was resolved, and else stops the processor. -/
theorem fault_confined (c : Core) (reach : Reachable c) (well : c.store.WellFormed 4 c.root)
    (bounded : c.store.Bounded) (code address : Nat) :
    ∃ t r c', c.tasks.value.task? c.tasks.value.executing = some t ∧
      eval (pageFault code address) c = .ok (r, c') ∧
      Store.Answered c.root (.ofNat code) address t.window c.store (r, c'.store) ∧
      (∀ d : Core, d.store = c.store → d.cr3 / frameBytes = c.cr3 / frameBytes →
        executingWindow d.tasks.value = t.window →
        ∃ d', eval (pageFault code address) d = .ok (r, d') ∧ d'.store = c'.store) ∧
      (c.installed = true → ∀ away, ∃ c'',
        eval (call away (.faultTrap code address)) c = .ok (trapAnswer r, c'') ∧
          c''.store = c'.store) := by
  obtain ⟨t, known, -⟩ := (Scheduler.reachable_invariant reach.tasks).executing_runs
  have window : executingWindow c.tasks.value = t.window := by rw [executingWindow, known]
  obtain ⟨c', ran, left⟩ := eval_pageFault c code address
  refine ⟨t, _, c', known, ran, ?answered, fun d store root same => ?elsewhere,
    fun installed away => ?trap⟩
  case answered =>
    rw [left, ← window]
    exact Store.answered_handleFault well bounded _ _ _
  case elsewhere =>
    obtain ⟨d', ran', left'⟩ := eval_pageFault d code address
    rw [resolve_congr store root (same.trans window.symm)] at ran' left'
    exact ⟨d', ran', left'.trans left.symm⟩
  case trap =>
    obtain ⟨c'', trapped, left'⟩ := eval_faultTrap installed away code address
    exact ⟨c'', trapped, left'.trans left.symm⟩

/-- The main task may touch a page of its window. Past the window it is stopped. -/
theorem fault_confined_main :
    let s := ((Scheduler.new 0 0x1fff).value.perform (.setWindow 1 ⟨0x4000, 0x6000⟩)).value.2
    let c : Core := { (new 0x1fff ((Memory.filled (.ofNat 0x2003)).clear 1)
      ((Frames.full 1).release 2 8) 0 []).value with tasks := .new s }
    Reachable c ∧ c.store.WellFormed 4 c.root ∧ c.store.Bounded ∧
      (∃ c', eval (pageFault 0x6 0x5abc) c = .ok (.ok (), c') ∧
        c.memory.translate 1 0x5abc = none ∧ Store.PageBacked 1 0x5abc c.store c'.store) ∧
      ∃ c', eval (pageFault 0x6 0x6000) c = .ok (.error (.outOfRange 0x6000), c') ∧
        c'.store = c.store := by
  have resolved : (Store.handleFault ⟨(Frames.full 1).release 2 8,
      (Memory.filled (.ofNat 0x2003)).clear 1⟩ 1 (.ofNat 0x6) 0x5abc ⟨0x4000, 0x6000⟩).value.1 =
        .ok () := by rfl
  have window : executingWindow ((Scheduler.new 0 0x1fff).value.perform
      (.setWindow 1 ⟨0x4000, 0x6000⟩)).value.2 = ⟨0x4000, 0x6000⟩ := by rfl
  intro s c
  have reach : Reachable c := .schedule (.setWindow 1 ⟨0x4000, 0x6000⟩) (.start 0x1fff _ _ 0 [] _)
  have root : c.root = 1 := by decide
  have store : c.store =
      ⟨(Frames.full 1).release 2 8, (Memory.filled (.ofNat 0x2003)).clear 1⟩ := rfl
  have seen : executingWindow c.tasks.value = ⟨0x4000, 0x6000⟩ := window
  have clear : ∀ i, c.store.memory.entry 1 i = .zero := fun i =>
    (Memory.entry_clear _ _ _ _).trans (if_pos rfl)
  have well : c.store.WellFormed 4 c.root := by
    rw [root]
    exact (Store.Owned.start clear).wellFormed (by decide)
  have bounded : c.store.Bounded := by
    unfold Store.Bounded
    decide
  obtain ⟨t, r, c', -, ran, inside, -⟩ := fault_confined c reach well bounded 0x6 0x5abc
  obtain ⟨u, q, d, known, ran', outside, -⟩ := fault_confined c reach well bounded 0x6 0x6000
  have done : r = .ok () := by
    obtain ⟨_, same, -⟩ := eval_pageFault c 0x6 0x5abc
    rw [ran, resolve, root, store, seen] at same
    rw [(Prod.mk.inj (Except.ok.inj same)).1]
    exact resolved
  rw [executingWindow, known] at seen
  rw [show u.window = _ from seen] at outside
  have refused : q = .error (.outOfRange 0x6000) := outside.range.mpr ⟨by decide, by decide⟩
  subst done refused
  have before : c.memory.translate 1 0x5abc = none :=
    Memory.walk_absent (congrArg Entry.present (clear _))
  refine ⟨reach, well, bounded, ⟨c', ran, before, ?_⟩, d, ran', outside.refused _ rfl rfl⟩
  rw [← root]
  exact (inside.resolved rfl).2.2

end Nucleus.Core
