import Nucleus.Proofs.Task.Invariant

/-!
# Switches

The executing task is the head of the queue at the current level. Only two operations move that
head on, and both say so.

* `executing_wakeAt`, `executing_send`: waking, moving and writing to tasks leaves the turn where
  it is.
* `announced_sleep`, `announced_preempt`: the other two answer with the switch they ask for.
* `announced_perform`: a switch is asked for exactly when the executing task changes.
-/

namespace Nucleus.Scheduler
variable {s : Scheduler}

/-- Whether `id` is a task with something to resume. -/
def Primed (s : Scheduler) (id : TaskId) : Prop :=
  ∃ t, s.task? id = some t ∧ t.hasContext = true

/-- On the way from `s` to `s'` the switch `w` tells of every change of the executing task. -/
structure Announced (s : Scheduler) (w : Option Switch) (s' : Scheduler) : Prop where
  switch : w = if s'.executing = s.executing then none else some ⟨s.executing, s'.executing⟩
  primed : ∀ x ∈ w, s'.Primed x.current ∧ s'.Primed x.next

theorem Announced.refl (h : s'.executing = s.executing) : Announced s none s' :=
  ⟨by rw [if_pos h], fun x h => by cases h⟩

theorem Announced.of_executing {r s s' : Scheduler} {w : Option Switch}
    (same : s.executing = r.executing) (told : Announced s w s') : Announced r w s' := by
  obtain ⟨switch, primed⟩ := told
  rw [same] at switch
  exact ⟨switch, primed⟩

/-! ## Changes that leave the turn where it is -/

@[simp] theorem executing_modify (id : TaskId) (g : Task → Task) :
    (s.modify id g).executing = s.executing := by
  simp [executing]

theorem executing_woken (inv : s.Invariant) (id : TaskId) (l : Priority) :
    (s.woken id l).executing = s.executing := by
  obtain ⟨rest, line⟩ := inv.exists_head
  obtain ⟨rest', line'⟩ := s.head_woken id l line
  exact executing_of_cons (by rw [level_woken, line'])

theorem executing_requeued (inv : s.Invariant) {id : TaskId} (old l : Priority)
    (queued : s.isHead id = false) : (s.requeued id old l).executing = s.executing := by
  obtain ⟨rest, line⟩ := inv.exists_head
  obtain ⟨rest', line'⟩ :=
    s.head_requeued old l line (head_ne_of_isHead line queued)
  exact executing_of_cons (by rw [level_requeued, line'])

theorem executing_of_isHead {id : TaskId} (first : s.isHead id = true) : s.executing = id := by
  obtain ⟨rest, line⟩ := isHead_iff.mp first
  exact executing_of_cons line

theorem executing_carried {id : TaskId} {l : Priority} (away : l ≠ s.level)
    (first : s.isHead id = true) : (s.carried id l).executing = s.executing := by
  rw [executing_of_isHead first]
  exact executing_of_cons (by rw [level_carried, queue_carried s away, if_pos rfl])

theorem executing_remove (inv : s.Invariant) {id : TaskId} (g : Task → Task) (l : Priority)
    (queued : s.isHead id = false) :
    ((s.modify id g).remove id l).executing = s.executing := by
  obtain ⟨rest, line⟩ := inv.exists_head
  have line' : (s.modify id g).queue (s.modify id g).level = s.executing :: rest := by
    rw [queue_modify, level_modify, line]
  obtain ⟨rest', left⟩ := head_remove _ l line' (head_ne_of_isHead line queued)
  exact executing_of_cons left

theorem executing_wakeAt (inv : s.Invariant) (id : TaskId) (target : Option Priority) :
    (s.wakeAt id target).value.2.executing = s.executing := by
  refine wakeAt_cases (P := fun r => r.2.executing = s.executing) (fun _ => rfl)
    (fun _ _ _ _ => rfl) ?queued ?head (fun _ _ _ _ => rfl) ?sleeping
  case queued =>
    intro t l _ _ _ _ queued
    exact executing_requeued inv t.level l queued
  case head =>
    intro t l known _ _ moves first
    obtain ⟨rest, line⟩ := isHead_iff.mp first
    rw [inv.level_of_head known line] at moves
    exact executing_carried moves first
  case sleeping =>
    intro t _ _ _
    exact executing_woken inv id _

theorem executing_wakeup (inv : s.Invariant) (id : TaskId) (level : Option Nat) :
    (s.wakeup id level).value.2.executing = s.executing :=
  wakeup_cases (P := fun r => r.2.executing = s.executing) (fun _ _ _ => rfl)
    (fun target _ => executing_wakeAt inv id target)

theorem executing_send (inv : s.Invariant) (id : TaskId) (message : Message) :
    (s.send id message).value.2.executing = s.executing := by
  have posted : (s.modify id fun t => { t with mailbox := t.mailbox ++ [message] }).Invariant :=
    invariant_modify inv id (fun _ => rfl) (fun _ => rfl) (fun _ primed => primed)
  refine send_cases (P := fun r => r.2.executing = s.executing) (fun _ => rfl) ?bare ?primed
  case bare =>
    intro _ _ _
    exact executing_modify _ _
  case primed =>
    intro _ _ _
    rw [executing_wakeAt posted, executing_modify]

/-! ## Changes of the turn -/

theorem Invariant.primed_executing (inv : s.Invariant) : s.Primed s.executing := by
  obtain ⟨t, known, runs, -⟩ := inv.executing_runs
  exact ⟨t, known, inv.contexts _ t known runs⟩

/-- Moving the turn on answers with the switch to the task whose turn it is then. -/
theorem announced_yield {sleeps : Bool} (primed : s.Primed s.executing)
    (inv : (s.rotate sleeps).2.Invariant) :
    Announced s (s.yield sleeps).value.1 (s.yield sleeps).value.2 := by
  obtain ⟨t, known, context⟩ := primed
  have former : (s.rotate sleeps).2.task? s.executing = some t := by rw [task?_rotate, known]
  obtain ⟨u, next, runs, -⟩ := inv.executing_runs
  rw [value_yield, value_plan former next]
  refine ⟨rfl, fun x asked => ?_⟩
  split at asked
  · cases asked
  · cases asked
    exact ⟨⟨t, former, context⟩, u, next, inv.contexts _ u next runs⟩

theorem announced_sleep (inv : s.Invariant) (id : TaskId) :
    Announced s (s.sleep id).value.1.toOption.join (s.sleep id).value.2 := by
  refine sleep_cases (P := fun r => Announced s r.1.toOption.join r.2) (fun _ => .refl rfl)
    (fun _ _ _ => .refl rfl) ?head ?queued
  case head =>
    intro t known runs works first
    have same := executing_modify (s := s) id fun t => { t with running := false }
    have primed : (s.modify id fun t => { t with running := false }).Primed
        (s.modify id fun t => { t with running := false }).executing := by
      rw [same, executing_of_isHead first]
      exact ⟨{ t with running := false }, by simp [known], inv.contexts id t known runs⟩
    exact (announced_yield primed (invariant_retire inv known runs works first)).of_executing same
  case queued =>
    intro t _ _ _ queued
    exact .refl (executing_remove inv _ _ queued)

theorem value_sleep_of_stopped {id : TaskId} {t : Task} (known : s.task? id = some t)
    (stopped : t.running = false) : (s.sleep id).value = (.ok none, s) := by
  rw [sleep, known]
  simp only [stopped, Bool.not_false, if_true, Logged.value_pure]

/-- Whoever suspended itself does not run until it is woken. -/
theorem task?_of_slept {id : TaskId} {t : Task} {w : Switch} (known : s.task? id = some t)
    (slept : (s.sleep id).value.1 = .ok (some w)) :
    (s.sleep id).value.2.task? id = some { t with running := false } := by
  revert slept
  refine sleep_cases (P := fun r =>
    r.1 = .ok (some w) → r.2.task? id = some { t with running := false })
    ?unknown ?stays ?head ?queued
  case unknown => rintro _ ⟨⟩
  case stays => rintro _ _ _ ⟨⟩
  case head =>
    intro u here _ _ _ _
    rw [known] at here
    cases here
    rw [value_yield, task?_rotate]
    simp [known]
  case queued => rintro _ _ _ _ _ ⟨⟩

theorem announced_preempt (inv : s.Invariant) (saved : Context) :
    Announced s (s.preempt saved).value.1 (s.preempt saved).value.2 := by
  have kept : (s.modify s.executing fun t => { t with context := saved }).Invariant :=
    invariant_modify inv _ (fun _ => rfl) (fun _ => rfl) (fun _ primed => primed)
  exact (announced_yield kept.primed_executing (invariant_rotate kept)).of_executing
    (executing_modify _ _)

/-- The switch that an answer asks for. -/
def Reply.switch? : Reply → Option Switch
  | .switch w => w
  | _ => none

/-- Whether an operation can move the turn on. -/
def Operation.yields : Operation → Bool
  | .sleep _ | .preempt _ => true
  | _ => false

/-- Whether an operation puts a task to sleep. -/
def Operation.sleeps : Operation → Bool
  | .sleep _ => true
  | _ => false

theorem executing_perform (inv : s.Invariant) (op : Operation) (keeps : op.yields = false) :
    (s.perform op).value.2.executing = s.executing := by
  cases op with
  | create => rfl
  | prime id entry arg cr3 areas =>
    exact s.left_prime id entry arg cr3 areas ▸ executing_modify _ _
  | wakeup id level => exact executing_wakeup inv id level
  | send id message => exact executing_send inv id message
  | receive id => exact s.left_receive id ▸ executing_modify _ _
  | setWindow id window => exact s.left_setWindow id window ▸ executing_modify _ _
  | sleep | preempt => cases keeps

theorem executing_run (inv : s.Invariant) {ops : List Operation}
    (keeps : ∀ op ∈ ops, op.yields = false) : (s.run ops).executing = s.executing := by
  induction ops generalizing s with
  | nil => rfl
  | cons op ops ih =>
    have later := ih (invariant_perform inv op) fun op' later => keeps op' (.tail op later)
    exact later.trans (executing_perform inv op (keeps op (.head ops)))

theorem switch?_ofExcept {α : Type} {ok : α → Reply} (quiet : ∀ a, (ok a).switch? = none)
    (r : Except TaskError α) : (Reply.ofExcept ok r).switch? = none := by
  cases r with
  | ok a => exact quiet a
  | error e => rfl

theorem switch?_perform (s : Scheduler) {op : Operation} (keeps : op.yields = false) :
    (s.perform op).value.1.switch? = none := by
  cases op with
  | create => rfl
  | prime | wakeup | send | receive | setWindow => exact switch?_ofExcept (fun _ => rfl) _
  | sleep | preempt => cases keeps

theorem announced_perform (inv : s.Invariant) (op : Operation) :
    Announced s (s.perform op).value.1.switch? (s.perform op).value.2 := by
  cases keeps : op.yields with
  | false =>
    rw [switch?_perform s keeps]
    exact .refl (executing_perform inv op keeps)
  | true =>
    cases op with
    | sleep id =>
      have answer : (s.perform (.sleep id)).value.1.switch? =
          (s.sleep id).value.1.toOption.join := by
        simp only [perform, Logged.value_bind, Logged.value_pure]
        cases (s.sleep id).value.1 <;> rfl
      rw [answer]
      exact announced_sleep inv id
    | preempt saved => exact announced_preempt inv saved
    | create | prime | wakeup | send | receive | setWindow => cases keeps

end Nucleus.Scheduler
