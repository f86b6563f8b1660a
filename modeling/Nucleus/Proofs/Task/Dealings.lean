import Nucleus.Proofs.Task.Expiry
import Nucleus.Proofs.Task.Invariant

/-!
# Dealings

A book is kept of the messages that change hands: those that are sent, and those that are taken.
The two sides of each mailbox balance, whatever else is done to its owner.

* `balanced_perform`: each operation keeps what was in a mailbox and what came in together with
  what went out and what is left.
* `balanced_booked`: so does every run.
* `booked_tick`: a tick sends a message for each timer that expires and has an owner.
-/

namespace Nucleus
open Platform

/-- A message changes hands. -/
inductive Dealing where
  /-- It is put into the mailbox of `id`. -/
  | sent (id : TaskId) (m : Message)
  /-- It is handed to `id`. -/
  | taken (id : TaskId) (m : Message)
deriving DecidableEq, Repr

namespace Dealing

def sentTo? (id : TaskId) : Dealing → Option Message
  | .sent j m => if j = id then some m else none
  | .taken _ _ => none

def takenBy? (id : TaskId) : Dealing → Option Message
  | .sent _ _ => none
  | .taken j m => if j = id then some m else none

end Dealing

/-- The messages that were sent to `id`, the oldest first. -/
def sentTo (id : TaskId) (book : List Dealing) : List Message :=
  book.filterMap (Dealing.sentTo? id)

/-- The messages that `id` was handed, the oldest first. -/
def takenBy (id : TaskId) (book : List Dealing) : List Message :=
  book.filterMap (Dealing.takenBy? id)

variable {id : TaskId} {book ds : List Dealing}

@[simp] theorem sentTo_sent (id j : TaskId) (m : Message) :
    sentTo id [.sent j m] = if j = id then [m] else [] := by
  by_cases own : j = id <;> simp [sentTo, Dealing.sentTo?, own]

@[simp] theorem sentTo_taken (id j : TaskId) (m : Message) : sentTo id [.taken j m] = [] := rfl

@[simp] theorem takenBy_sent (id j : TaskId) (m : Message) : takenBy id [.sent j m] = [] := rfl

@[simp] theorem takenBy_taken (id j : TaskId) (m : Message) :
    takenBy id [.taken j m] = if j = id then [m] else [] := by
  by_cases own : j = id <;> simp [takenBy, Dealing.takenBy?, own]

theorem sentTo_append : sentTo id (book ++ ds) = sentTo id book ++ sentTo id ds :=
  List.filterMap_append

theorem takenBy_append : takenBy id (book ++ ds) = takenBy id book ++ takenBy id ds :=
  List.filterMap_append

namespace Scheduler
variable {s s' : Scheduler} {j : TaskId}

/-- What lies in the mailbox of `id`, nothing if there is no such task. -/
def mail (s : Scheduler) (id : TaskId) : List Message := (s.mailbox? id).getD []

theorem mail_congr (same : s'.mailbox? id = s.mailbox? id) : s'.mail id = s.mail id := by
  rw [mail, mail, same]

/-- What `op` dealt, going by its reply. -/
def Operation.dealings : Operation → Reply → List Dealing
  | .send id m, .done => [.sent id m]
  | .receive id, .message (some m) => [.taken id m]
  | _, _ => []

theorem Operation.dealings_of_silent {op : Operation} (silent : op.deals = false) (r : Reply) :
    op.dealings r = [] := by
  cases op <;> first | rfl | cases silent

theorem value_perform_send (s : Scheduler) (id : TaskId) (m : Message) :
    (s.perform (.send id m)).value =
      (.ofExcept (fun _ => .done) (s.send id m).value.1, (s.send id m).value.2) := rfl

theorem value_perform_receive (s : Scheduler) (id : TaskId) :
    (s.perform (.receive id)).value = (.ofExcept .message (s.receive id).1, (s.receive id).2) := rfl

/-! ## Each operation -/

theorem mail_create (s : Scheduler) (j : TaskId) : s.create.value.2.mail j = s.mail j := by
  by_cases fresh : j = s.tasks.size + 1
  · simp [mail, mailbox?, create, task?_push, fresh, task?_size, Task.fresh]
  · simp [mail, mailbox?, create, task?_push, fresh]

theorem mail_of_silent (s : Scheduler) {op : Operation} (silent : op.deals = false)
    (j : TaskId) : (s.perform op).value.2.mail j = s.mail j := by
  cases op with
  | create => exact mail_create s j
  | prime id entry arg cr3 areas =>
    exact s.left_prime id entry arg cr3 areas ▸
      mail_congr (map_of_kept (s.task?_modify id j _) fun _ => rfl)
  | wakeup id level =>
    exact mail_congr (wakeup_cases (P := fun r => r.2.mailbox? j = s.mailbox? j)
      (fun _ _ _ => rfl) fun target _ => s.mailbox?_wakeAt id j target)
  | sleep id => exact mail_congr (s.mailbox?_sleep id j)
  | setWindow id window =>
    exact s.left_setWindow id window ▸
      mail_congr (map_of_kept (s.task?_modify id j _) fun _ => rfl)
  | preempt saved => exact mail_congr (s.mailbox?_preempt saved j)
  | send | receive => cases silent

/-- What was there and what came in is what went out and what is left. -/
def Balanced (s : Scheduler) (op : Operation) (j : TaskId) : Prop :=
  s.mail j ++ sentTo j (op.dealings (s.perform op).value.1) =
    takenBy j (op.dealings (s.perform op).value.1) ++ (s.perform op).value.2.mail j

theorem balanced_send (s : Scheduler) (id : TaskId) (m : Message) (j : TaskId) :
    s.Balanced (.send id m) j := by
  rw [Balanced, value_perform_send]
  cases s.send_answer id m with
  | inl accepted =>
    obtain ⟨t, known⟩ := Option.ne_none_iff_exists'.mp accepted.1
    have dealt : (Operation.send id m).dealings (Reply.ofExcept (fun _ => .done)
        (s.send id m).value.1) = [.sent id m] := by
      rw [accepted.2]
      rfl
    rw [dealt, mail, mail, s.mailbox?_send]
    by_cases own : j = id
    · simp [own, mailbox?, known]
    · simp [own, Ne.symm own]
  | inr refused =>
    rw [refused.2]
    exact List.append_nil _

theorem balanced_receive (s : Scheduler) (id j : TaskId) : s.Balanced (.receive id) j := by
  rw [Balanced, value_perform_receive]
  apply receive_cases (P := fun r =>
    s.mail j ++ sentTo j ((Operation.receive id).dealings (Reply.ofExcept .message r.1)) =
      takenBy j ((Operation.receive id).dealings (Reply.ofExcept .message r.1)) ++ r.2.mail j)
  case unknown => exact fun _ => List.append_nil _
  case empty => exact fun _ _ _ => List.append_nil _
  case mail =>
    intro t m rest known lies
    have dealt : (Operation.receive id).dealings (Reply.ofExcept .message (.ok (some m))) =
        [.taken id m] := rfl
    rw [dealt]
    by_cases own : j = id
    · simp [own, mail, mailbox?, known, lies]
    · simp [own, Ne.symm own, mail, mailbox?]

theorem balanced_perform (s : Scheduler) (op : Operation) (j : TaskId) : s.Balanced op j := by
  cases op with
  | send id m => exact balanced_send s id m j
  | receive id => exact balanced_receive s id j
  | create | prime | wakeup | sleep | setWindow | preempt =>
    exact (List.append_nil _).trans (mail_of_silent s rfl j).symm

/-! ## Runs -/

/-- What the scheduler can come to, with the book that was kept from its start on. -/
inductive Booked : List Dealing → Scheduler → Prop where
  | start (idleEntry cr3 : UInt64) (areas : Stacks) :
    Booked [] (new idleEntry cr3 areas).value
  | next {book : List Dealing} {s : Scheduler} (op : Operation) : Booked book s →
      Booked (book ++ op.dealings (s.perform op).value.1) (s.perform op).value.2

theorem Booked.silent (booked : Booked book s) (op : Operation) (silent : op.deals = false) :
    Booked book (s.perform op).value.2 := by
  have later := booked.next op
  rw [Operation.dealings_of_silent silent, List.append_nil] at later
  exact later

theorem balanced_booked (booked : Booked book s) (id : TaskId) :
    sentTo id book = takenBy id book ++ s.mail id := by
  induction booked with
  | start idleEntry cr3 areas =>
    have empty : (new idleEntry cr3 areas).value.mail id = [] := by
      simp only [mail, mailbox?, task?_new]
      split
      · rfl
      · split <;> rfl
    rw [empty]
    rfl
  | @next book s op _ ih =>
    calc sentTo id (book ++ op.dealings (s.perform op).value.1)
      _ = takenBy id book ++ (s.mail id ++ sentTo id (op.dealings (s.perform op).value.1)) := by
        rw [sentTo_append, ih, List.append_assoc]
      _ = takenBy id (book ++ op.dealings (s.perform op).value.1) ++
          (s.perform op).value.2.mail id := by
        rw [balanced_perform, takenBy_append, List.append_assoc]

end Scheduler

/-! ## Timers -/

namespace Timers
variable {ts : Timers} {s : Scheduler}

/-- What a list of timers sends as they fire: each its message, if its owner exists. -/
def sendings (fired : List Timer) (s : Scheduler) : List Dealing :=
  (fired.filter fun t => (s.task? t.owner).isSome).map fun t => .sent t.owner t.message

/-- What the next tick sends. -/
def expiries (ts : Timers) (s : Scheduler) : List Dealing := sendings ts.firing s

theorem sendings_cons (t : Timer) (fired : List Timer) (s : Scheduler) :
    sendings (t :: fired) s =
      (Scheduler.Operation.send t.owner t.message).dealings
        (s.perform (.send t.owner t.message)).value.1 ++
      sendings fired (s.send t.owner t.message).value.2 := by
  simp only [Scheduler.value_perform_send, sendings, Scheduler.known_send]
  cases s.send_answer t.owner t.message with
  | inl accepted =>
    have known : (s.task? t.owner).isSome = true := Option.isSome_iff_ne_none.mpr accepted.1
    rw [List.filter_cons, if_pos known, accepted.2]
    rfl
  | inr refused =>
    rw [List.filter_cons, if_neg (by simp [refused.1]), refused.2]
    rfl

theorem booked_sendAll (fired : List Timer) : ∀ {book : List Dealing} {s : Scheduler},
    Scheduler.Booked book s → Scheduler.Booked (book ++ sendings fired s) (sendAll fired s) := by
  induction fired with
  | nil =>
    intro book s booked
    exact (List.append_nil book).symm ▸ booked
  | cons t fired ih =>
    intro book s booked
    rw [sendings_cons, ← List.append_assoc]
    exact ih (booked.next (.send t.owner t.message))

theorem booked_tick {book : List Dealing} {answer : Bool × Timers × Scheduler}
    (booked : Scheduler.Booked book s) (ticked : (ts.tick s).run.value = .ok answer) :
    Scheduler.Booked (book ++ ts.expiries s) answer.2.2 := by
  rw [sent_of_tick ticked]
  exact booked_sendAll _ booked

end Timers

end Nucleus
