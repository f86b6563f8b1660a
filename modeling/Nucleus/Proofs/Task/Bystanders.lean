import Nucleus.Proofs.Task.Switches

/-!
# Bystanders

An operation on one task takes that task out of a queue, or puts it into one. All others keep what
they have, and the order in which they wait.

* `TouchesOnly`: what an operation on one task may change.
* `touchesOnly_woken`, `touchesOnly_requeued`, `touchesOnly_carried`, `touchesOnly_rotate`: the ways
  in which a task comes into a queue or leaves it.
* `touchesOnly_perform`, `touchesOnly_run`: every operation on a task, and all of them in a row.
* `bystanders_kept`: the same of every scheduler that can be reached, and how a turn passes in it.
-/

namespace Nucleus.Scheduler
open Platform

/-- The task that an operation names. -/
def Operation.target? : Operation → Option TaskId
  | .prime id .. | .wakeup id _ | .sleep id | .send id _ | .receive id | .setWindow id _ => some id
  | .create | .preempt _ => none

/-- On the way from `s` to `s'` all but task `id` keep their data, and the order in which they
wait. -/
structure TouchesOnly (s : Scheduler) (id : TaskId) (s' : Scheduler) : Prop where
  task : ∀ j, j ≠ id → s'.task? j = s.task? j
  order : ∀ l, (s'.queue l).filter (· != id) = (s.queue l).filter (· != id)

/-- The executing task has had its turn: it is the last one now of those at its level, and `saved`
is what it resumes with. -/
structure TurnPassed (s : Scheduler) (saved : Context) (s' : Scheduler) : Prop where
  touches : s.TouchesOnly s.executing s'
  context : s'.task? s.executing =
    (s.task? s.executing).map fun t => { t with context := saved }
  moved : ∃ t rest, s.task? s.executing = some t ∧ s.queue t.level = s.executing :: rest ∧
    s'.queue t.level = rest ++ [s.executing] ∧ ∀ l, l ≠ t.level → s'.queue l = s.queue l

variable {s s' s'' : Scheduler} {id : TaskId}

namespace TouchesOnly

theorem refl (s : Scheduler) (id : TaskId) : s.TouchesOnly id s := ⟨fun _ _ => rfl, fun _ => rfl⟩

theorem trans (first : s.TouchesOnly id s') (second : s'.TouchesOnly id s'') :
    s.TouchesOnly id s'' where
  task j other := (second.task j other).trans (first.task j other)
  order l := (second.order l).trans (first.order l)

end TouchesOnly

/-! ## Changes of one task -/

theorem touchesOnly_modify (s : Scheduler) (id : TaskId) (g : Task → Task) :
    s.TouchesOnly id (s.modify id g) where
  task j other := by rw [task?_modify, if_neg other]
  order l := by rw [queue_modify]

theorem touchesOnly_woken (s : Scheduler) (id : TaskId) (l : Priority) :
    s.TouchesOnly id (s.woken id l) where
  task j other := by rw [task?_woken, if_neg other]
  order m := by
    rw [queue_woken]
    split
    · simp
    · rfl

theorem touchesOnly_remove (s : Scheduler) (id : TaskId) (l : Priority) :
    s.TouchesOnly id (s.remove id l) where
  task _ _ := rfl
  order m := by
    rw [queue_remove]
    split
    · rw [List.filter_filter]
      simp only [Bool.and_self]
    · rfl

theorem touchesOnly_requeued (s : Scheduler) (id : TaskId) (old l : Priority) :
    s.TouchesOnly id (s.requeued id old l) where
  task j other := by rw [task?_requeued, if_neg other]
  order m := by
    have left := (touchesOnly_remove s id old).order m
    rw [queue_remove] at left
    have own : (if m = l then [id] else []).filter (· != id) = [] := by split <;> simp
    rw [queue_requeued, List.filter_append, own, List.append_nil, left]

theorem touchesOnly_carried {l : Priority} (away : l ≠ s.level) (first : s.isHead id = true) :
    s.TouchesOnly id (s.carried id l) where
  task j other := by rw [task?_carried, if_neg other]
  order m := by
    obtain ⟨rest, line⟩ := isHead_iff.mp first
    rw [queue_carried s away]
    split
    · next here => simp [here]
    · split
      · next here => simp [here, line]
      · rfl

/-- Whoever is at the head of the current queue is the one that moves when the turn goes on. -/
theorem touchesOnly_rotate (first : s.isHead id = true) (sleeps : Bool) :
    s.TouchesOnly id (s.rotate sleeps).2 where
  task j _ := task?_rotate s sleeps j
  order m := by
    obtain ⟨rest, line⟩ := isHead_iff.mp first
    rw [queue_rotate]
    split
    · next here =>
      rw [here, leftover, executing_of_cons line, line]
      cases sleeps <;> simp
    · rfl

/-! ## Operations on one task -/

theorem touchesOnly_wakeAt (inv : s.Invariant) (id : TaskId) (target : Option Priority) :
    s.TouchesOnly id (s.wakeAt id target).value.2 := by
  apply wakeAt_cases (P := fun r => s.TouchesOnly id r.2)
  case unknown | steady | bare => intros; exact .refl s id
  case queued => intros; exact touchesOnly_requeued s id _ _
  case sleeping => intros; exact touchesOnly_woken s id _
  case head =>
    intro t l known _ _ moves first
    obtain ⟨rest, line⟩ := isHead_iff.mp first
    rw [inv.level_of_head known line] at moves
    exact touchesOnly_carried moves first

theorem touchesOnly_wakeup (inv : s.Invariant) (id : TaskId) (level : Option Nat) :
    s.TouchesOnly id (s.wakeup id level).value.2 :=
  wakeup_cases (P := fun r => s.TouchesOnly id r.2) (fun _ _ _ => .refl s id)
    (fun target _ => touchesOnly_wakeAt inv id target)

theorem touchesOnly_sleep (s : Scheduler) (id : TaskId) :
    s.TouchesOnly id (s.sleep id).value.2 := by
  have stopped := touchesOnly_modify s id fun t => { t with running := false }
  apply sleep_cases (P := fun r => s.TouchesOnly id r.2)
  case unknown | stays => intros; exact .refl s id
  case queued => intros; exact stopped.trans (touchesOnly_remove _ id _)
  case head =>
    intro t _ _ _ first
    have still : (s.modify id fun t => { t with running := false }).isHead id = true := by
      simpa [isHead] using first
    rw [value_yield]
    exact stopped.trans (touchesOnly_rotate still true)

theorem touchesOnly_send (inv : s.Invariant) (id : TaskId) (message : Message) :
    s.TouchesOnly id (s.send id message).value.2 := by
  have posted := touchesOnly_modify s id fun t => { t with mailbox := t.mailbox ++ [message] }
  have inv' : (s.modify id fun t => { t with mailbox := t.mailbox ++ [message] }).Invariant :=
    invariant_modify inv id (fun _ => rfl) (fun _ => rfl) (fun _ primed => primed)
  exact send_cases (P := fun r => s.TouchesOnly id r.2) (fun _ => .refl s id) (fun _ _ _ => posted)
    (fun _ _ _ => posted.trans (touchesOnly_wakeAt inv' id none))

/-- An operation on a task touches no other. -/
theorem touchesOnly_perform (inv : s.Invariant) {op : Operation} (names : op.target? = some id) :
    s.TouchesOnly id (s.perform op).value.2 := by
  cases op with
  | prime _ entry arg cr3 areas =>
    cases names
    exact s.left_prime id entry arg cr3 areas ▸ touchesOnly_modify s id _
  | wakeup _ level =>
    cases names
    exact touchesOnly_wakeup inv id level
  | sleep _ =>
    cases names
    exact touchesOnly_sleep s id
  | send _ message =>
    cases names
    exact touchesOnly_send inv id message
  | receive _ =>
    cases names
    exact s.left_receive id ▸ touchesOnly_modify s id _
  | setWindow _ window =>
    cases names
    exact s.left_setWindow id window ▸ touchesOnly_modify s id _
  | create | preempt => cases names

/-- So do operations on one task in a row. -/
theorem touchesOnly_run (inv : s.Invariant) {ops : List Operation}
    (names : ∀ op ∈ ops, op.target? = some id) : s.TouchesOnly id (s.run ops) := by
  induction ops generalizing s with
  | nil => exact .refl s id
  | cons op ops ih =>
    have later := ih (invariant_perform inv op) fun op' later => names op' (.tail op later)
    exact (touchesOnly_perform inv (names op (.head ops))).trans later

/-! ## The turn passes -/

theorem turnPassed_preempt (inv : s.Invariant) (saved : Context) :
    s.TurnPassed saved (s.preempt saved).value.2 := by
  obtain ⟨rest, line⟩ := inv.exists_head
  obtain ⟨t, known, -, level⟩ := inv.executing_runs
  have kept := touchesOnly_modify s s.executing fun t => { t with context := saved }
  have first : (s.modify s.executing fun t => { t with context := saved }).isHead s.executing =
      true := isHead_iff.mpr ⟨rest, by rw [queue_modify, level_modify, line]⟩
  rw [preempt, value_yield]
  refine ⟨kept.trans (touchesOnly_rotate first false), ?context, t, rest, known, ?head, ?tail,
    ?other⟩
  case context => rw [task?_rotate, task?_modify, if_pos rfl]
  case head => rw [level, line]
  case tail =>
    rw [queue_rotate, level_modify, level, if_pos rfl, leftover, executing_modify, queue_modify,
      level_modify, line]
    rfl
  case other =>
    intro l elsewhere
    rw [queue_rotate, level_modify, ← level, if_neg elsewhere, queue_modify]

/-- **Bystanders.** Whatever was asked of a scheduler, an operation on one task leaves all others
with their level, what they were doing, their mailbox, registers and window, and does not change
the order in which they are queued. When the turn passes, only the executing task moves, to the
tail of its own level. -/
theorem bystanders_kept (reach : Reachable s) :
    (∀ op id, op.target? = some id → s.TouchesOnly id (s.perform op).value.2) ∧
      ∀ saved, s.TurnPassed saved (s.perform (.preempt saved)).value.2 := by
  have inv := reachable_invariant reach
  refine ⟨fun op id names => touchesOnly_perform inv names, fun saved => ?_⟩
  exact turnPassed_preempt inv saved

/-- The main task has moved below two others that run, and keeps its turn although a look for a
higher level is due. The one behind it goes to the level of the other, and then the turn passes. -/
theorem bystanders_kept_before_rescan :
    let s := (new 0 0).value.run [.create, .prime 3 0x1000 5 0, .create, .prime 4 0x2000 5 0,
      .wakeup 3 (some 4), .wakeup 4 (some 2), .wakeup 1 (some 2)]
    Reachable s ∧ s.changePending = true ∧ s.executing = 1 ∧ s.queue 2 = [1, 4] ∧
      (Operation.wakeup 4 (some 4)).target? = some 4 ∧
      s.TouchesOnly 4 (s.perform (.wakeup 4 (some 4))).value.2 ∧
      (s.perform (.wakeup 4 (some 4))).value.2.queue 4 = [3, 4] ∧
      s.TurnPassed .zero (s.perform (.preempt .zero)).value.2 ∧
      (s.perform (.preempt .zero)).value.2.executing = 3 := by
  intro s
  have reach : Reachable s := .run _ (.start 0 0 _)
  obtain ⟨touches, passes⟩ := bystanders_kept reach
  exact ⟨reach, by decide, by decide, by decide, rfl, touches _ 4 rfl, by decide, passes .zero,
    by decide⟩

end Nucleus.Scheduler
