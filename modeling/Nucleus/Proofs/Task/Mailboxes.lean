import Nucleus.Proofs.Task.Views

/-!
# Mailboxes

A message that is sent goes to the end of its owner's mailbox, whatever the owner is doing. Waking
a task touches no mailbox.

* `mailbox?_wakeAt`: waking and moving tasks leaves every mailbox as it is.
* `mailbox?_send`: sending appends to one mailbox, if its owner exists.
* `send_answer`: it is refused only if there is no such task, and then nothing changes.
-/

namespace Nucleus.Scheduler

/-- What lies in the mailbox of `id`, if there is such a task. -/
def mailbox? (s : Scheduler) (id : TaskId) : Option (List Message) := (s.task? id).map Task.mailbox

/-- Whether an operation deals messages. -/
def Operation.deals : Operation → Bool
  | .send _ _ | .receive _ => true
  | _ => false

theorem placeless_mailbox : Placeless Task.mailbox := ⟨fun _ _ => rfl, fun _ _ => rfl⟩

variable (s : Scheduler)

theorem mailbox?_wakeAt (id j : TaskId) (target : Option Priority) :
    (s.wakeAt id target).value.2.mailbox? j = s.mailbox? j := map_wakeAt placeless_mailbox target

/-- A message goes to the end of its owner's mailbox, and into no other. -/
theorem mailbox?_send (id j : TaskId) (message : Message) :
    (s.send id message).value.2.mailbox? j =
      if j = id then (s.mailbox? j).map (· ++ [message]) else s.mailbox? j := by
  have posted := map_of_task (f := Task.mailbox) (h := (· ++ [message]))
    (s.task?_modify id j fun t => { t with mailbox := t.mailbox ++ [message] }) fun _ => rfl
  apply send_cases (P := fun r => r.2.mailbox? j =
    if j = id then (s.mailbox? j).map (· ++ [message]) else s.mailbox? j)
  case unknown =>
    intro unknown
    split
    · next here => simp [mailbox?, here, unknown]
    · rfl
  case bare => exact fun _ _ _ => posted
  case primed => exact fun _ _ _ => (mailbox?_wakeAt _ id j none).trans posted

/-- Sending makes nobody known. -/
theorem known_send (id : TaskId) (m : Message) (j : TaskId) :
    ((s.send id m).value.2.task? j).isSome = (s.task? j).isSome := by
  have mails := congrArg Option.isSome (s.mailbox?_send id j m)
  have either : (if j = id then (s.mailbox? j).map (· ++ [m]) else s.mailbox? j).isSome =
      (s.mailbox? j).isSome := by split <;> simp
  rw [either] at mails
  simpa only [mailbox?, Option.isSome_map] using mails

/-- A send is refused only if there is no such task, and then nothing changes. -/
theorem send_answer (id : TaskId) (m : Message) :
    (s.task? id ≠ none ∧ (s.send id m).value.1 = .ok ()) ∨
      (s.task? id = none ∧ (s.send id m).value = (.error (.noSuchTask id), s)) := by
  apply send_cases (P := fun r => (s.task? id ≠ none ∧ r.1 = .ok ()) ∨
    (s.task? id = none ∧ r = (.error (.noSuchTask id), s)))
  case unknown => exact fun unknown => .inr ⟨unknown, rfl⟩
  case bare => exact fun t known _ => .inl ⟨by simp [known], rfl⟩
  case primed =>
    intro t known primed
    have posted : (s.modify id fun t => { t with mailbox := t.mailbox ++ [m] }).task? id =
        some { t with mailbox := t.mailbox ++ [m] } := by
      simp [known]
    refine .inl ⟨by simp [known], ?_⟩
    -- the task is there and has something to resume, so nothing keeps it from waking
    apply wakeAt_cases (P := fun r => r.1 = .ok ())
    case unknown =>
      intro unknown
      rw [posted] at unknown
      cases unknown
    case bare =>
      intro u here _ bare
      rw [posted] at here
      cases here
      rw [primed] at bare
      cases bare
    all_goals
      intros
      rfl

theorem mailbox?_sleep (id j : TaskId) :
    (s.sleep id).value.2.mailbox? j = s.mailbox? j := map_sleep placeless_mailbox

theorem mailbox?_preempt (saved : Context) (j : TaskId) :
    (s.preempt saved).value.2.mailbox? j = s.mailbox? j := by
  rw [preempt, value_yield, mailbox?, task?_rotate]
  exact map_of_kept (s.task?_modify s.executing j fun t => { t with context := saved })
    fun _ => rfl

end Nucleus.Scheduler
