import Nucleus.Proofs.Task.Mailboxes
import Nucleus.Proofs.Task.Switches

/-!
# Waiting

A task with something to resume that sleeps with an empty mailbox is woken by the next message.
Nothing but putting it to sleep on top of a message can break that.

* `Attended`: a task that sleeps only while its mailbox is empty.
* `attended_perform`: what puts no task to sleep leaves every such task as it should be.
* `attended_sleep`: so does putting a task to sleep that has no message.
* `executing_ne_of_sleep`: who goes to sleep without giving control away.
-/

namespace Nucleus

/-- A task with something to resume that has no message while it sleeps. -/
structure Task.Attended (t : Task) : Prop where
  context : t.hasContext = true
  mail : t.running = false → t.mailbox = []

theorem Task.Attended.of_running {t : Task} (context : t.hasContext = true)
    (runs : t.running = true) : t.Attended :=
  ⟨context, fun sleeps => by rw [runs] at sleeps; cases sleeps⟩

namespace Scheduler
variable {s s' : Scheduler} {id j : TaskId} {g : Task → Task}

def Attended (s : Scheduler) (id : TaskId) : Prop := ∃ t, s.task? id = some t ∧ t.Attended

theorem Invariant.attended (inv : s.Invariant) {t : Task} (known : s.task? id = some t)
    (runs : t.running = true) : s.Attended id :=
  ⟨t, known, .of_running (inv.contexts id t known runs) runs⟩

theorem Attended.change (h : s.Attended id)
    (same : s'.task? id = if id = j then (s.task? id).map g else s.task? id)
    (keeps : ∀ t, s.task? j = some t → t.Attended → (g t).Attended) : s'.Attended id := by
  obtain ⟨t, known, attended⟩ := h
  by_cases here : id = j
  · exact ⟨g t, by rw [same, if_pos here, known]; rfl, keeps t (here ▸ known) attended⟩
  · exact ⟨t, by rw [same, if_neg here, known], attended⟩

theorem Attended.modify (h : s.Attended id) (j : TaskId)
    (keeps : ∀ t, s.task? j = some t → t.Attended → (g t).Attended) :
    (s.modify j g).Attended id :=
  h.change (s.task?_modify j id g) keeps

/-! ## Waking and writing -/

theorem attended_wakeAt (h : s.Attended id) (j : TaskId) (target : Option Priority) :
    (s.wakeAt j target).value.2.Attended id := by
  refine wakeAt_cases (P := fun r => r.2.Attended id) (fun _ => h) (fun _ _ _ _ => h) ?queued ?head
    (fun _ _ _ _ => h) ?sleeping
  case queued =>
    intro _ _ _ _ _ _ _
    exact h.change (task?_requeued ..) fun _ _ ⟨context, mail⟩ => ⟨context, mail⟩
  case head =>
    intro _ _ _ _ _ _ _
    exact h.change (task?_carried ..) fun _ _ ⟨context, mail⟩ => ⟨context, mail⟩
  case sleeping =>
    intro _ _ _ _
    exact h.change (task?_woken ..) fun _ _ ⟨context, _⟩ => .of_running context rfl

/-- Whoever has something to resume runs once it has been woken. -/
theorem Primed.attended_wakeAt (primed : s.Primed id) (target : Option Priority) :
    (s.wakeAt id target).value.2.Attended id := by
  obtain ⟨t, known, context⟩ := primed
  have own {u : Task} (here : s.task? id = some u) : t = u :=
    Option.some.inj (known.symm.trans here)
  refine wakeAt_cases (P := fun r => r.2.Attended id) ?unknown ?steady ?queued ?head ?bare ?sleeping
  case unknown =>
    intro unknown
    rw [known] at unknown
    cases unknown
  case steady =>
    intro u here runs _
    obtain rfl := own here
    exact ⟨t, known, .of_running context runs⟩
  case queued =>
    intro u l here runs _ _ _
    obtain rfl := own here
    exact ⟨{ t with level := l }, by simp [known], .of_running context runs⟩
  case head =>
    intro u l here runs _ _ _
    obtain rfl := own here
    exact ⟨{ t with level := l }, by simp [known], .of_running context runs⟩
  case bare =>
    intro u here _ bare
    obtain rfl := own here
    rw [context] at bare
    cases bare
  case sleeping =>
    intro u here _ _
    obtain rfl := own here
    exact ⟨{ t with level := target.getD t.level, running := true }, by simp [known],
      .of_running context rfl⟩

theorem attended_send (h : s.Attended id) (j : TaskId) (message : Message) :
    (s.send j message).value.2.Attended id := by
  obtain ⟨t, known, attended⟩ := h
  refine send_cases (P := fun r => r.2.Attended id) (fun _ => ⟨t, known, attended⟩) ?bare ?primed
  case bare =>
    intro u here bare
    have other : id ≠ j := by
      rintro rfl
      rw [known] at here
      cases here
      rw [attended.context] at bare
      cases bare
    exact ⟨t, by simp [other, known], attended⟩
  case primed =>
    intro u here primed
    by_cases same : id = j
    · -- the mailbox is no longer empty, but its owner is woken
      subst same
      have posted : (s.modify id fun t => { t with mailbox := t.mailbox ++ [message] }).Primed id :=
        ⟨{ u with mailbox := u.mailbox ++ [message] }, by simp [here], primed⟩
      exact posted.attended_wakeAt none
    · exact attended_wakeAt ⟨t, by simp [same, known], attended⟩ j none

/-! ## Operations -/

theorem attended_create (h : s.Attended id) : s.create.value.2.Attended id := by
  obtain ⟨t, known, attended⟩ := h
  have old : id ≠ s.tasks.size + 1 := by
    rintro rfl
    rw [task?_size] at known
    cases known
  exact ⟨t, by simp [create, task?_push, old, known], attended⟩

theorem attended_preempt (h : s.Attended id) (saved : Context) :
    (s.preempt saved).value.2.Attended id := by
  obtain ⟨t, known, attended⟩ :=
    h.modify (g := fun t => { t with context := saved }) s.executing
      fun _ _ ⟨context, mail⟩ => ⟨context, mail⟩
  rw [preempt, value_yield]
  exact ⟨t, by rw [task?_rotate, known], attended⟩

/-- What puts no task to sleep leaves no message with a sleeping task. -/
theorem attended_perform (h : s.Attended id) (op : Operation) (wakes : op.sleeps = false) :
    (s.perform op).value.2.Attended id := by
  cases op with
  | create => exact attended_create h
  | prime j entry arg cr3 areas =>
    exact s.left_prime j entry arg cr3 areas ▸ h.modify j fun _ _ ⟨_, mail⟩ => ⟨rfl, mail⟩
  | wakeup j level =>
    exact wakeup_cases (P := fun r => r.2.Attended id) (fun _ _ _ => h)
      (fun target _ => attended_wakeAt h j target)
  | sleep => cases wakes
  | send j message => exact attended_send h j message
  | receive j =>
    exact s.left_receive j ▸
      h.modify j fun _ _ ⟨context, mail⟩ => ⟨context, fun sleeps => by simp [mail sleeps]⟩
  | setWindow j window =>
    exact s.left_setWindow j window ▸ h.modify j fun _ _ ⟨context, mail⟩ => ⟨context, mail⟩
  | preempt saved => exact attended_preempt h saved

/-- A task that has no message may go to sleep. -/
theorem attended_sleep (h : s.Attended id) (empty : s.mailbox? j = some []) :
    (s.sleep j).value.2.Attended id := by
  have slept : (s.modify j fun t => { t with running := false }).Attended id :=
    h.modify j fun t here ⟨context, _⟩ => ⟨context, fun _ => by simpa [mailbox?, here] using empty⟩
  refine sleep_cases (P := fun r => r.2.Attended id) (fun _ => h) (fun _ _ _ => h) ?head ?queued
  case head =>
    intro _ _ _ _ _
    obtain ⟨t, known, attended⟩ := slept
    exact ⟨t, by rw [value_yield, task?_rotate, known], attended⟩
  case queued => exact fun _ _ _ _ _ => slept

/-! ## Who cannot be put to sleep -/

/-- A running task sleeps once it has been put to sleep, unless it is the idle task. -/
theorem task?_sleep {t : Task} (known : s.task? id = some t) (runs : t.running = true)
    (works : id ≠ s.idle) : (s.sleep id).value.2.task? id = some { t with running := false } := by
  refine sleep_cases (P := fun r => r.2.task? id = some { t with running := false }) ?unknown
    ?stays ?head ?queued
  case unknown =>
    intro unknown
    rw [known] at unknown
    cases unknown
  case stays =>
    intro u here still
    rw [known] at here
    cases here
    rcases still with sleeps | idles
    · rw [runs] at sleeps
      cases sleeps
    · exact absurd idles works
  case head =>
    intro _ _ _ _ _
    rw [value_yield, task?_rotate]
    simp [known]
  case queued =>
    intro _ _ _ _ _
    simp [remove, known]

/-- Control stays only with a task that did not have it, or with the idle task. -/
theorem executing_ne_of_sleep (inv : s.Invariant) (stays : (s.sleep id).value.1 = .ok none) :
    s.executing ≠ id ∨ id = s.idle := by
  refine Decidable.or_iff_not_imp_right.mpr fun works turn => ?_
  have told := (announced_sleep inv id).switch
  rw [stays] at told
  have same : (s.sleep id).value.2.executing = s.executing := by
    split at told
    · assumption
    · cases told
  -- whoever has the turn runs, and this one has just been put to sleep
  obtain ⟨t, known, runs, -⟩ := inv.executing_runs
  obtain ⟨u, here, still, -⟩ := (invariant_sleep inv id).executing_runs
  rw [turn] at known same
  rw [same, task?_sleep known runs works] at here
  cases here
  cases still

end Scheduler

end Nucleus
