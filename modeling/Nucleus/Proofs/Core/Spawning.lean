import Nucleus.Proofs.Core.Discipline
import Nucleus.Proofs.Task.Refusals

/-!
# Spawning

To spawn a task is to create it, to prime it and to wake it. The first two always work, and so does
the third unless it is asked for a level that does not exist: then the task is there, and sleeps.

* `enlist`: the scheduler with one more task, which is primed and sleeps.
* `eval_masked_withTasks`: work on the scheduler, as task code asks for it.
* `eval_spawn`: to spawn a task is to wake it where it has been enlisted.
* `refusals_exact`: for which reasons the scheduler and `spawn` refuse, and what is left then.
-/

namespace Nucleus
open Platform

namespace Scheduler
variable {s : Scheduler} {id : TaskId} {e : TaskError}

/-- The scheduler with one more task, which is primed and sleeps. -/
def enlist (s : Scheduler) (entry : UInt64) (arg : Int64) (cr3 : UInt64) (areas : Stacks) :
    Scheduler :=
  let id := s.tasks.size + 1
  { s with tasks := s.tasks.push (Task.fresh.prime id entry arg cr3 (areas id)) }

theorem id_create (s : Scheduler) : s.create.value.1 = s.tasks.size + 1 := rfl

theorem prime_create (s : Scheduler) (entry : UInt64) (arg : Int64) (cr3 : UInt64)
    (areas : Stacks) :
    s.create.value.2.prime (s.tasks.size + 1) entry arg cr3 areas =
      (.ok (), s.enlist entry arg cr3 areas) := by
  have known : s.create.value.2.task? (s.tasks.size + 1) = some .fresh := by
    simp [create, task?_push]
  rw [prime, known]
  exact congrArg (Prod.mk _) (s.modify_push .fresh _)

theorem wakeup_eq_error {level : Option Nat} :
    (s.wakeup id level).value.1 = .error e ↔ s.Refusal s.tasks.size (.wakeup id level) e := by
  rw [← (settled_wakeup s id level).reasons]
  change _ ↔ Reply.ofExcept (fun _ => .done) (s.wakeup id level).value.1 = .error e
  cases (s.wakeup id level).value.1 <;> simp [Reply.ofExcept]

theorem kept_wakeup {level : Option Nat} (refused : (s.wakeup id level).value.1 = .error e) :
    (s.wakeup id level).value.2 = s :=
  (settled_wakeup s id level).kept e (congrArg (Reply.ofExcept fun _ => .done) refused)

/-- The task is there and has something to resume, so only the level can be wrong. -/
theorem wakeup_enlisted (entry : UInt64) (arg : Int64) (cr3 : UInt64) (level : Option Nat)
    (areas : Stacks) :
    ((s.enlist entry arg cr3 areas).wakeup (s.tasks.size + 1) level).value.1 = .error e ↔
      ∃ l, level = some l ∧ maxLevel < l ∧ e = .invalidLevel l := by
  have known : (s.enlist entry arg cr3 areas).task? (s.tasks.size + 1) =
      some (Task.fresh.prime (s.tasks.size + 1) entry arg cr3 (areas (s.tasks.size + 1))) := by
    rw [enlist, task?_push, if_pos rfl]
  rw [wakeup_eq_error]
  constructor
  · intro why
    cases why with
    | level high => exact ⟨_, rfl, high, rfl⟩
    | unknown names _ none =>
      cases names
      rw [task?_eq_none_iff.mpr none] at known
      cases known
    | bare _ known' _ bare =>
      rw [known] at known'
      cases known'
      cases bare
  · rintro ⟨l, rfl, high, rfl⟩
    exact .level high

end Scheduler

namespace Core
variable {α : Type} {c : Core}

theorem Reachable.free (reach : Reachable c) : Free c := by
  induction reach with
  | start => exact ⟨rfl, rfl, rfl⟩
  | next a _ done ih => exact (restored_step ih done).2.1
  | schedule op _ ih => exact ⟨ih.timers, rfl, ih.frames⟩
  | around _ _ _ _ ih => exact ⟨ih.timers, ih.tasks, ih.frames⟩

/-- Work on the scheduler, as task code asks for it, leaves the rest of the core alone. -/
theorem eval_masked_withTasks (free : c.tasks.held = false)
    (f : Scheduler → Logged (α × Scheduler)) :
    eval (masked (withTasks f)) c =
      .ok ((f c.tasks.value).value.1, { c with tasks := .new (f c.tasks.value).value.2 }) := by
  rw [eval_masked, eval_withTasks, free, contention_false]
  simp only [Except.map, List.append_nil, Interrupts.unmask_mask, SpinLock.new]

theorem eval_spawn (free : c.tasks.held = false) (entry : UInt64) (arg : Int64)
    (level : Option Nat) (areas : Stacks) :
    let id := c.tasks.value.tasks.size + 1
    let listed := c.tasks.value.enlist entry arg (UInt64.ofNat c.cr3) areas
    let woken := (listed.wakeup id level).value
    eval (spawn entry arg level areas) c =
      .ok (woken.1.map fun _ => id, { c with tasks := .new woken.2 }) := by
  intro id listed woken
  simp only [spawn, eval_bind, eval_get, Except.bind, eval_masked_withTasks free,
    Logged.value_bind, Scheduler.id_create, Scheduler.prime_create]
  rcases answer : woken with ⟨e | _, s⟩ <;> simp only [woken, listed, id] at answer <;>
    rw [answer] <;> rfl

theorem refused_spawn (reach : Reachable c) (entry : UInt64) (arg : Int64) (level : Option Nat)
    (areas : Stacks) : ∃ r c', eval (spawn entry arg level areas) c = .ok (r, c') ∧
      (∀ e, r = .error e ↔ ∃ l, level = some l ∧ maxLevel < l ∧ e = .invalidLevel l) ∧
      ∀ e, r = .error e →
        c' = { c with
          tasks := .new (c.tasks.value.enlist entry arg (UInt64.ofNat c.cr3) areas) } := by
  have same {e : TaskError} (x : Except TaskError Unit) (id : TaskId) :
      (x.map fun _ => id) = .error e ↔ x = .error e := by
    cases x <;> simp [Except.map]
  refine ⟨_, _, eval_spawn reach.free.tasks entry arg level areas, fun e => ?_,
    fun e refused => ?_⟩
  · rw [same]
    exact Scheduler.wakeup_enlisted entry arg _ level _
  · rw [Scheduler.kept_wakeup ((same _ _).mp refused)]

/-- **Refusals are exact and change nothing.** After any operations a task is known if its number is
not 0 and not above the number of tasks that were made. An operation is refused exactly for the
reasons that `Refusal` lists, and then the scheduler is as it was, with every queue, flag, level,
mailbox, context and window. To spawn a task always ends, and is refused only for a level that does
not exist; then there is one more task, which is primed and sleeps, and nothing else has changed. -/
theorem refusals_exact :
    (∀ (idleEntry cr3 : UInt64) (areas : Stacks) (ops : List Scheduler.Operation),
      let s := (Scheduler.new idleEntry cr3 areas).value.run ops
      let created := 2 + ops.countP Scheduler.Operation.creates
      (∀ id, s.task? id = none ↔ id = 0 ∨ created < id) ∧
      (∀ op e, (s.perform op).value.1 = .error e ↔ s.Refusal created op e) ∧
      ∀ op e, (s.perform op).value.1 = .error e → (s.perform op).value.2 = s) ∧
    ∀ c, Reachable c → ∀ (entry : UInt64) (arg : Int64) (level : Option Nat) (areas : Stacks),
      let s := c.tasks.value
      let id := s.tasks.size + 1
      let t := Task.fresh.prime id entry arg (UInt64.ofNat c.cr3) (areas id)
      t.running = false ∧ t.hasContext = true ∧
      ∃ r c', eval (spawn entry arg level areas) c = .ok (r, c') ∧
        (∀ e, r = .error e ↔ ∃ l, level = some l ∧ maxLevel < l ∧ e = .invalidLevel l) ∧
        ∀ e, r = .error e → c' = { c with tasks := .new { s with tasks := s.tasks.push t } } := by
  constructor
  · intro idleEntry cr3 areas ops s created
    have size : s.tasks.size = created :=
      Scheduler.size_run (Scheduler.invariant_new idleEntry cr3 areas) ops
    rw [← size]
    exact ⟨fun _ => Scheduler.task?_eq_none_iff, fun op => (s.settled_perform op).reasons,
      fun op => (s.settled_perform op).kept⟩
  · intro c reach entry arg level areas s id t
    exact ⟨rfl, rfl, refused_spawn reach entry arg level areas⟩

/-- A task that was written to but never primed cannot be woken, and level 8 does not exist, neither
for a task that there is not nor for one that is to be spawned. -/
theorem refusals_exact_unprimed :
    let s := (Scheduler.new 0 0).value.run [.create, .send 3 .interruptXhci]
    let c := (new 0x1000 .zero (.full 1) 0 []).value
    (s.perform (.wakeup 3 (some 2))).value = (.error (.notInitialized 3), s) ∧
      s.task? 4 = none ∧ (s.perform (.wakeup 4 (some 8))).value = (.error (.invalidLevel 8), s) ∧
      Reachable c ∧ ∃ c',
        eval (spawn 0x2000 5 (some 8) .inOrder) c = .ok (.error (.invalidLevel 8), c') ∧
        c' = { c with tasks := .new (c.tasks.value.enlist 0x2000 5 0x1000 .inOrder) } := by
  intro s c
  obtain ⟨scheduling, spawning⟩ := refusals_exact
  obtain ⟨known, reasons, kept⟩ := scheduling 0 0 .inOrder [.create, .send 3 .interruptXhci]
  have written : s.task? 3 = some { Task.fresh with mailbox := [.interruptXhci] } := rfl
  have exist : (Scheduler.Operation.wakeup 3 (some 2)).LevelExists := Nat.le_of_ble_eq_true rfl
  have bare : (s.perform (.wakeup 3 (some 2))).value.1 = .error (.notInitialized 3) :=
    (reasons _ _).mpr (.bare exist written rfl rfl)
  have high : (s.perform (.wakeup 4 (some 8))).value.1 = .error (.invalidLevel 8) :=
    (reasons _ _).mpr (.level (by decide))
  have reach : Reachable c := .start 0x1000 .zero (.full 1) 0 [] _
  obtain ⟨-, -, r, c', done, refused, left⟩ := spawning c reach 0x2000 5 (some 8) .inOrder
  have why : r = .error (.invalidLevel 8) := (refused _).mpr ⟨8, rfl, by decide, rfl⟩
  refine ⟨Prod.ext bare (kept _ _ bare), (known 4).mpr (.inr (by decide)),
    Prod.ext high (kept _ _ high), reach, c', why ▸ done, left _ why⟩

end Core
end Nucleus
