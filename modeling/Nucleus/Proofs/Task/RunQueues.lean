import Nucleus.Proofs.Task.Invariant

/-!
# Run queues

What the invariant says of the queues of a reachable scheduler.

* `consulted`: the places where an operation would fall back on the idle task.
* `reachable_runQueues`: tasks and queues agree, and no operation ever falls back.
-/

namespace Nucleus.Scheduler
open Platform
variable {s : Scheduler}

/-- The schedulers in which an operation takes the head of the current queue, or else the idle
task if there is none. -/
def consulted (s : Scheduler) : Operation → List Scheduler
  | .sleep id =>
    let asleep := s.modify id fun t => { t with running := false }
    match s.task? id with
    | some t =>
      if t.running && id != s.idle && s.isHead id then [asleep, (asleep.rotate true).2] else []
    | none => []
  | .preempt saved =>
    let kept := s.modify s.executing fun t => { t with context := saved }
    [s, kept, (kept.rotate false).2]
  | _ => []

structure RunQueues (s : Scheduler) : Prop where
  running_iff : ∀ id, (∃ t, s.task? id = some t ∧ t.running = true) ↔ ∃ l, id ∈ s.queue l
  /-- A runnable task is queued once overall, at its own level. -/
  once : ∀ id t, s.task? id = some t → t.running = true →
    t.level ≤ maxLevel ∧ ∀ l, (s.queue l).count id = if l = t.level then 1 else 0
  idle : ∃ t, s.task? s.idle = some t ∧ t.running = true
  head : ∃ rest, s.queue s.level = s.executing :: rest
  /-- No operation falls back on the idle task. -/
  no_fallback : ∀ op, ∀ seen ∈ s.consulted op, seen.queue seen.level ≠ []
  contexts : ∀ id t, s.task? id = some t → t.running = true → t.hasContext = true

theorem head_of_consulted (inv : s.Invariant) {op : Operation} {seen : Scheduler}
    (h : seen ∈ s.consulted op) : seen.queue seen.level ≠ [] := by
  cases op with
  | sleep id =>
    unfold consulted at h
    cases known : s.task? id with
    | none => simp [known] at h
    | some t =>
      simp only [known] at h
      split at h
      · next due =>
        simp only [Bool.and_eq_true, bne_iff_ne, ne_eq] at due
        obtain ⟨⟨runs, works⟩, first⟩ := due
        simp only [List.mem_cons, List.not_mem_nil, or_false] at h
        rcases h with rfl | rfl
        · simpa using inv.head
        · exact (invariant_retire inv known runs works first).head
      · cases h
  | preempt saved =>
    have kept : (s.modify s.executing fun t => { t with context := saved }).Invariant :=
      invariant_modify inv _ (fun _ => rfl) (fun _ => rfl) (fun _ primed => primed)
    simp only [consulted, List.mem_cons, List.not_mem_nil, or_false] at h
    rcases h with rfl | rfl | rfl
    · exact inv.head
    · exact kept.head
    · exact (invariant_rotate kept).head
  | create | prime | wakeup | send | receive | setWindow => cases h

/-- **Run queues.** Whatever was asked of a scheduler, a task is queued where it runs and nowhere
else, the idle task runs, every runnable task can be resumed, and the task whose turn it is is
always a real head of its queue. -/
theorem reachable_runQueues (reach : Reachable s) : RunQueues s := by
  have inv := reachable_invariant reach
  refine ⟨?running_iff, ?once, inv.idle, inv.exists_head, fun _ _ => head_of_consulted inv,
    inv.contexts⟩
  case running_iff =>
    intro id
    constructor
    · rintro ⟨t, known, runs⟩
      exact ⟨t.level, inv.mem_iff.mpr ⟨t, known, runs, rfl⟩⟩
    · rintro ⟨l, queued⟩
      obtain ⟨t, known, runs, -⟩ := inv.mem_iff.mp queued
      exact ⟨t, known, runs⟩
  case once =>
    intro id t known runs
    refine ⟨Nat.le_of_lt_succ t.level.isLt, fun l => ?_⟩
    rw [count_of_task inv known, runs, Bool.true_and]
    by_cases here : l = t.level
    · simp [here]
    · have elsewhere : (t.level == l) = false := by simpa using Ne.symm here
      rw [if_neg here, elsewhere]
      rfl

/-- The main task moves itself down, a new task takes over, and the main task goes to sleep. -/
theorem runQueues_handover :
    let s := (new 0 0).value.run [.create, .prime 3 0x1000 5 0, .wakeup 3 (some 4),
      .wakeup 1 (some 2), .preempt .zero, .sleep 1]
    Reachable s ∧ s.queue 4 = [3] ∧ s.queue 2 = [] ∧ RunQueues s :=
  ⟨.run _ (.start 0 0 _), by decide, by decide, reachable_runQueues (.run _ (.start 0 0 _))⟩

end Nucleus.Scheduler
