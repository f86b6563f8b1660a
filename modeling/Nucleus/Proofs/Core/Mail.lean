import Nucleus.Proofs.Core.Transfers
import Nucleus.Proofs.Task.Dealings

/-!
# Mail

The acts of a core once more, with a book kept of the messages that they deal. Where a caller gives
control away, whoever runs meanwhile goes on with the same book. Without the book they are the acts
they were, and with it every mailbox balances.

* `Book.perform`, `Book.away`: acts and scripts with the book.
* `Books`: a computation is another one with the book kept.
* `books_perform`: so it is with every act.
* `told_perform`: what an act dealt itself stands last in the book.
* `Run`: what a core can come to, with the book that was kept from its start on.
* `mailboxes_lossless`: the sides of the book balance, and how it is kept.
-/

namespace Nucleus

/-- What happens on a core while a book of the dealings is kept. -/
abbrev BookM := StateT (List Dealing) CoreM

/-- The messages that the timers send with the next tick. -/
def Core.expiries (c : Core) : List Dealing := c.timers.value.expiries c.tasks.value

/-- What a call dealt itself, going by the core before it and by its answer. -/
def Call.dealings : Call → Core → Answer → List Dealing
  | .send id m, _, .done => [.sent id m]
  | .receive id, _, .message (some m) => [.taken id m]
  | .receiveOrSleep id, _, .message (some m) => [.taken id m]
  | .timerInterrupt _, c, _ => c.expiries
  | .timerTrap _, c, _ => if c.installed then c.expiries else []
  | _, _, _ => []

def Act.dealings : Act → Core → Answer → List Dealing
  | .call k => k.dealings
  | _ => fun _ _ => []

/-- Whether an act may have to wait for others to give control back. -/
def Act.waits : Act → Bool
  | .call (.sleep _) | .call (.receiveOrSleep _) => true
  | _ => false

def Core.Attempt.dealings (id : TaskId) : Attempt → List Dealing
  | .received m => [.taken id m]
  | _ => []

namespace Book
open Nucleus.Core
variable {α β : Type}

theorem bind_apply (x : BookM α) (f : α → BookM β) (book : List Dealing) :
    (x >>= f) book = x book >>= fun r => f r.1 r.2 := rfl

/-- Do `x`, and write down what it dealt. -/
def noting (x : CoreM α) (dealt : Core → α → List Dealing) : BookM α := fun book => do
  let c ← get
  let a ← x
  pure (a, book ++ dealt c a)

def masked (body : BookM α) : BookM α := fun book => Core.masked (body book)

def switchTo (away : BookM Unit) (w : Switch) : BookM Unit := do
  emit (.switchContext w)
  away

def sleep (away : BookM Unit) (id : TaskId) : BookM (Except TaskError Unit) :=
  masked do
    match ← withTasks fun s => s.sleep id with
    | .error e => pure (.error e)
    | .ok none => pure (.ok ())
    | .ok (some w) => do
      switchTo away w
      pure (.ok ())

def round (away : BookM Unit) (id : TaskId) : BookM (Option (Except TaskError (Option Message))) :=
  masked do
    match ← noting (withTasks (attempt id)) fun _ => Attempt.dealings id with
    | .refused e => pure (some (.error e))
    | .received m => pure (some (.ok (some m)))
    | .stuck => pure (some (.ok none))
    | .suspended w => do
      switchTo away w
      pure none

def receiveOrSleep (away : BookM Unit) (id : TaskId) :
    (rounds : Nat) → BookM (Except TaskError (Option Message))
  | 0 => pure (.ok none)
  | rounds + 1 => do
    match ← round away id with
    | some a => pure a
    | none => receiveOrSleep away id rounds

/-- Do one act. Only two kinds of acts wait for control to come back. -/
def perform (away : BookM Unit) : Act → BookM Answer
  | .call (.sleep id) => answerTask (fun _ => .done) <$> sleep away id
  | .call (.receiveOrSleep id) => do
    let c ← (get : CoreM Core)
    answerTask .message <$> receiveOrSleep away id (c.scripts.length + 2)
  | a => noting (Core.perform (pure ()) a) a.dealings

def play (away : BookM Unit) : List Act → BookM Unit
  | [] => pure ()
  | a :: as => do
    let r ← perform away a
    emit fun _ => .ran r
    if r.isHalted then pure () else play away as

def away : (depth : Nat) → BookM Unit
  | 0 => pure ()
  | depth + 1 => do
    match (← (get : CoreM Core)).scripts with
    | [] => pure ()
    | script :: rest => do
      (modify fun c => { c with scripts := rest } : CoreM Unit)
      play (away depth) script

end Book

namespace Core
variable {α β : Type}

/-- `x` is `y` with the book kept: without the book they come to the same, and what is added to the
book is what was dealt. -/
def Books (x : BookM α) (y : CoreM α) : Prop :=
  ∀ book c, match eval y c with
    | .ok (a, c') => ∃ ds, eval (x book) c = .ok ((a, book ++ ds), c') ∧
        (Scheduler.Booked book c.tasks.value → Scheduler.Booked (book ++ ds) c'.tasks.value)
    | .error p => eval (x book) c = .error p

theorem Books.noting {x : CoreM α} {dealt : Core → α → List Dealing}
    (booked : ∀ {book c a c'}, eval x c = .ok (a, c') → Scheduler.Booked book c.tasks.value →
      Scheduler.Booked (book ++ dealt c a) c'.tasks.value) : Books (Book.noting x dealt) x := by
  intro book c
  rw [Book.noting, eval_bind, eval_get]
  simp only [Except.bind, eval_bind]
  cases ran : eval x c with
  | error p => rfl
  | ok r => exact ⟨dealt c r.1, rfl, booked ran⟩

/-- What deals nothing leaves the book as it is. -/
theorem Books.lift {y : CoreM α} (kept : ∀ book, Keeps (fun s _ _ => Scheduler.Booked book s) y) :
    Books (liftM y) y := by
  intro book c
  have opened : (liftM y : BookM α) book = y >>= fun a => Pure.pure (a, book) := rfl
  rw [opened, eval_bind]
  cases ran : eval y c with
  | error p => rfl
  | ok r =>
    exists []
    rw [List.append_nil]
    exact ⟨rfl, kept book c r.1 r.2 ran⟩

theorem Books.pure (a : α) : Books (Pure.pure a) (Pure.pure a) := .lift fun _ => .pure a

theorem Books.bind {x : BookM α} {y : CoreM α} {f : α → BookM β} {g : α → CoreM β}
    (hx : Books x y) (hf : ∀ a, Books (f a) (g a)) : Books (x >>= f) (y >>= g) := by
  intro book c
  have first := hx book c
  rw [Book.bind_apply, eval_bind, eval_bind]
  cases ran : eval y c with
  | error p =>
    rw [ran] at first
    rw [first]
    rfl
  | ok r =>
    rw [ran] at first
    obtain ⟨ds, told, booked⟩ := first
    have second := hf r.1 (book ++ ds) r.2
    rw [told]
    simp only [Except.bind]
    cases later : eval (g r.1) r.2 with
    | error p =>
      rw [later] at second
      exact second
    | ok r' =>
      rw [later] at second
      obtain ⟨ds', told', booked'⟩ := second
      rw [List.append_assoc] at told' booked'
      exact ⟨ds ++ ds', told', fun before => booked' (booked before)⟩

theorem Books.map {x : BookM α} {y : CoreM α} (hx : Books x y) (f : α → β) :
    Books (f <$> x) (f <$> y) := by
  rw [map_eq_pure_bind, map_eq_pure_bind]
  exact hx.bind fun a => .pure (f a)

theorem Books.masked {x : BookM α} {y : CoreM α} (hx : Books x y) :
    Books (Book.masked x) (Core.masked y) := by
  intro book c
  have body := hx book { c with interrupts := c.interrupts.mask.2 }
  rw [Book.masked, eval_masked, eval_masked]
  cases ran : eval y { c with interrupts := c.interrupts.mask.2 } with
  | error p =>
    rw [ran] at body
    rw [body]
    rfl
  | ok r =>
    rw [ran] at body
    obtain ⟨ds, told, booked⟩ := body
    rw [told]
    exact ⟨ds, rfl, booked⟩

/-- A handler of an interrupt keeps them masked, which is nothing to its dealings. -/
theorem Books.handler {x : CoreM Unit} {dealt : Core → List Dealing}
    (same : ∀ c interrupts, dealt { c with interrupts } = dealt c)
    (booked : ∀ {book c a c'}, eval x c = .ok (a, c') → Scheduler.Booked book c.tasks.value →
      Scheduler.Booked (book ++ dealt c) c'.tasks.value) (answer : Unit → β) :
    Books (Book.noting (answer <$> Core.masked x) fun c _ => dealt c) (answer <$> Core.masked x) := by
  apply Books.noting
  intro book c a c' ran before
  obtain ⟨_, ran, -⟩ := eval_map_eq_ok.mp ran
  obtain ⟨d, ran, tasks, -⟩ := masked_eq_ok ran
  rw [← tasks, ← same c c.interrupts.mask.2]
  exact booked ran before

/-! ## Acts that keep control -/

variable {book : List Dealing} {c c' : Core}

theorem quiet_booked (book : List Dealing) : Quiet fun s _ _ => Scheduler.Booked book s :=
  fun _ _ _ op _ silent booked => booked.silent op silent

theorem booked_withTasks {f : Scheduler → Logged (α × Scheduler)} {a : α} {ds : List Dealing}
    (ran : eval (masked (withTasks f)) c = .ok (a, c'))
    (booked : Scheduler.Booked ds (f c.tasks.value).value.2) :
    a = (f c.tasks.value).value.1 ∧ Scheduler.Booked ds c'.tasks.value := by
  rw [eval_masked, eval_withTasks] at ran
  cases ran
  exact ⟨rfl, booked⟩

theorem booked_timerInterrupt (saved : Context) {a : Unit}
    (ran : eval (timerInterrupt saved) c = .ok (a, c'))
    (booked : Scheduler.Booked book c.tasks.value) :
    Scheduler.Booked (book ++ c.expiries) c'.tasks.value := by
  obtain ⟨due, d, ticked, rest⟩ := eval_bind_eq_ok.mp ran
  have dealt : Scheduler.Booked (book ++ c.expiries) d.tasks.value := by
    rw [eval_tick] at ticked
    cases fired : (c.timers.value.tick c.tasks.value).run.value with
    | error p =>
      rw [fired] at ticked
      cases ticked
    | ok r =>
      rw [fired] at ticked
      cases ticked
      exact Timers.booked_tick booked fired
  refine Keeps.bind (P := fun s _ _ => Scheduler.Booked (book ++ c.expiries) s)
    (.quiet fun _ => rfl) (fun _ => ?_) d a c' rest dealt
  cases due with
  | false => exact .pure ()
  | true =>
    refine .bind (.withTasks fun s _ _ booked => booked.silent (.preempt saved) rfl) fun w => ?_
    cases w with
    | none => exact .pure ()
    | some w => exact .emit fun _ _ _ _ booked => booked

theorem booked_timerTrap (saved : Context) {a : Unit}
    (ran : eval (timerTrap saved) c = .ok (a, c')) (booked : Scheduler.Booked book c.tasks.value) :
    Scheduler.Booked (book ++ if c.installed then c.expiries else []) c'.tasks.value := by
  obtain ⟨_, _, seen, rest⟩ := eval_bind_eq_ok.mp ran
  cases seen
  cases here : c.installed with
  | false =>
    rw [here] at rest
    cases rest
    exact (List.append_nil book).symm ▸ booked
  | true =>
    rw [here] at rest
    exact booked_timerInterrupt saved rest booked

theorem booked_attempt {s : Scheduler} (booked : Scheduler.Booked book s) (id : TaskId) :
    Scheduler.Booked (book ++ (attempt id s).value.1.dealings id) (attempt id s).value.2 := by
  apply attempt_cases (P := fun r => Scheduler.Booked (book ++ r.1.dealings id) r.2)
  case unknown => exact fun _ => (List.append_nil book).symm ▸ booked
  case mail =>
    intro t m rest known lies
    have taken := booked.next (.receive id)
    have answer : s.receive id =
        (.ok (some m), s.modify id fun t => { t with mailbox := t.mailbox.tail }) := by
      rw [Scheduler.receive, known]
      simp [lies]
    simp only [Scheduler.perform, answer] at taken
    exact taken
  case empty =>
    intro _ _ _
    have slept := booked.silent (.sleep id) rfl
    have nothing : (Attempt.ofSleep (s.sleep id).value.1).dealings id = [] := by
      rcases (s.sleep id).value.1 with e | _ | w <;> rfl
    rw [nothing, List.append_nil]
    exact slept

theorem Act.dealings_of_silent {a : Act} (steady : a.yields = false) (silent : a.deals = false)
    (c : Core) (r : Answer) : a.dealings c r = [] := by
  cases a with
  | call k =>
    cases k with
    | send | receive => cases silent
    | receiveOrSleep | timerInterrupt | timerTrap => cases steady
    | _ => rfl
  | _ => rfl

/-- The calls deal what the operations of the scheduler deal. -/
theorem Act.dealings_send (id : TaskId) (m : Message) (c : Core) (r : Except TaskError Unit) :
    (Act.call (.send id m)).dealings c (answerTask (fun _ => .done) r) =
      (Scheduler.Operation.send id m).dealings (.ofExcept (fun _ => .done) r) := by
  cases r <;> rfl

theorem Act.dealings_receive (id : TaskId) (c : Core) (r : Except TaskError (Option Message)) :
    (Act.call (.receive id)).dealings c (answerTask .message r) =
      (Scheduler.Operation.receive id).dealings (.ofExcept .message r) := by
  rcases r with e | _ | m <;> rfl

theorem perform_of_steady (elsewhere : CoreM Unit) {a : Act} (steady : a.yields = false) :
    perform (Pure.pure ()) a = perform elsewhere a := by
  cases a with
  | call k =>
    cases k with
    | sleep | receiveOrSleep | timerInterrupt | timerTrap => cases steady
    | _ => rfl
  | _ => rfl

theorem booked_steady {a : Act} {r : Answer} (steady : a.yields = false)
    (ran : eval (perform (Pure.pure ()) a) c = .ok (r, c'))
    (booked : Scheduler.Booked book c.tasks.value) :
    Scheduler.Booked (book ++ a.dealings c r) c'.tasks.value := by
  cases deals : a.deals with
  | false =>
    rw [Act.dealings_of_silent steady deals, List.append_nil]
    exact (quiet_booked book).perform _ steady deals c r c' ran booked
  | true =>
    cases a with
    | call k =>
      cases k with
      | send id m =>
        obtain ⟨answer, sent, rfl⟩ := eval_map_eq_ok.mp ran
        obtain ⟨rfl, later⟩ := booked_withTasks sent (booked.next (.send id m))
        rw [Act.dealings_send]
        exact later
      | receive id =>
        obtain ⟨answer, taken, rfl⟩ := eval_map_eq_ok.mp ran
        obtain ⟨rfl, later⟩ := booked_withTasks taken (booked.next (.receive id))
        rw [Act.dealings_receive]
        exact later
      | _ => cases deals
    | _ => cases deals

/-! ## Acts that give control away -/

section
variable {x : BookM Unit} {y : CoreM Unit} (elsewhere : Books x y)
include elsewhere

theorem books_switchTo (w : Switch) : Books (Book.switchTo x w) (switchTo y w) :=
  .bind (.lift fun _ => .emit fun _ _ _ _ booked => booked) fun _ => elsewhere

theorem books_sleep (id : TaskId) : Books (Book.sleep x id) (sleep y id) := by
  apply Books.masked
  apply Books.bind
  · exact .lift fun book => .withTasks fun s _ _ booked => booked.silent (.sleep id) rfl
  · rintro (e | _ | w)
    · exact .pure _
    · exact .pure _
    · exact .bind (books_switchTo elsewhere w) fun _ => .pure _

theorem books_round (id : TaskId) : Books (Book.round x id) (round y id) := by
  apply Books.masked
  apply Books.bind
  · apply Books.noting
    intro book c a c' ran booked
    rw [eval_withTasks] at ran
    cases ran
    exact booked_attempt booked id
  · intro r
    cases r with
    | refused | received | stuck => exact .pure _
    | suspended w => exact .bind (books_switchTo elsewhere w) fun _ => .pure _

theorem books_receiveOrSleep (id : TaskId) (rounds : Nat) :
    Books (Book.receiveOrSleep x id rounds) (receiveOrSleep y id rounds) := by
  induction rounds with
  | zero => exact .pure _
  | succ rounds ih =>
    rw [receiveOrSleep_succ]
    apply Books.bind (books_round elsewhere id)
    intro answer
    cases answer with
    | some a => exact .pure a
    | none => exact ih

/-- Every act is done with the book as it is done without. -/
theorem books_perform (a : Act) : Books (Book.perform x a) (perform y a) := by
  cases steady : a.yields with
  | false =>
    have noted : Book.perform x a = Book.noting (perform (Pure.pure ()) a) a.dealings := by
      cases a with
      | call k =>
        cases k with
        | sleep | receiveOrSleep => cases steady
        | _ => rfl
      | _ => rfl
    rw [noted, ← perform_of_steady y steady]
    exact .noting (booked_steady steady)
  | true =>
    cases a with
    | call k =>
      cases k with
      | sleep id => exact (books_sleep elsewhere id).map _
      | receiveOrSleep id =>
        exact .bind (.lift fun _ => .get) fun c => (books_receiveOrSleep elsewhere id _).map _
      | timerInterrupt saved => exact .handler (fun _ _ => rfl) (booked_timerInterrupt saved) _
      | timerTrap saved => exact .handler (fun _ _ => rfl) (booked_timerTrap saved) _
      | _ => cases steady
    | _ => cases steady

theorem books_play (script : List Act) : Books (Book.play x script) (play y script) := by
  induction script with
  | nil => exact .pure ()
  | cons a rest ih =>
    apply Books.bind (books_perform elsewhere a)
    intro r
    apply Books.bind (.lift fun _ => .emit fun _ _ _ _ booked => booked)
    intro _
    cases r.isHalted with
    | true => exact .pure ()
    | false => exact ih

end

theorem books_away (depth : Nat) : Books (Book.away depth) (away depth) := by
  induction depth with
  | zero => exact .pure ()
  | succ depth ih =>
    apply Books.bind (.lift fun _ => .get)
    intro c
    cases c.scripts with
    | nil => exact .pure ()
    | cons script rest =>
      have taken (book : List Dealing) : Keeps (fun s _ _ => Scheduler.Booked book s)
          (modify fun c => { c with scripts := rest }) := by
        intro c a c' done booked
        cases done
        exact booked
      exact .bind (.lift taken) fun _ => books_play ih script

/-! ## Its own dealing comes last -/

section
variable {x : BookM Unit} {y : CoreM Unit} {id : TaskId} {book' : List Dealing}

theorem Books.kept {x : BookM α} {y : CoreM α} (books : Books x y) (book : List Dealing) {a : α}
    (ran : eval y c = .ok (a, c')) : ∃ ds, eval (x book) c = .ok ((a, book ++ ds), c') ∧
      (Scheduler.Booked book c.tasks.value → Scheduler.Booked (book ++ ds) c'.tasks.value) := by
  have both := books book c
  rw [ran] at both
  exact both

/-- Without the book it is the computation that it was. -/
theorem Books.erase {x : BookM α} {y : CoreM α} (books : Books x y) (book : List Dealing)
    (c : Core) : (eval (x book) c).map (fun r => (r.1.1, r.2)) = eval y c := by
  cases plain : eval y c with
  | error p =>
    have both := books book c
    rw [plain] at both
    rw [both]
    rfl
  | ok r =>
    obtain ⟨ds, kept, -⟩ := books.kept book plain
    rw [kept]
    rfl

theorem Books.told {x : BookM α} {y : CoreM α} (books : Books x y) {a : α}
    (ran : eval (x book) c = .ok ((a, book'), c')) :
    ∃ ds, book' = book ++ ds ∧ eval y c = .ok (a, c') ∧
      (Scheduler.Booked book c.tasks.value → Scheduler.Booked book' c'.tasks.value) := by
  have plain : eval y c = .ok (a, c') := by
    rw [← books.erase book c, ran]
    rfl
  obtain ⟨ds, kept, booked⟩ := books.kept book plain
  rw [kept] at ran
  cases ran
  exact ⟨ds, rfl, plain, booked⟩

theorem noting_eq_ok {x : CoreM α} {dealt : Core → α → List Dealing} {a : α}
    (ran : eval (Book.noting x dealt book) c = .ok ((a, book'), c')) :
    eval x c = .ok (a, c') ∧ book' = book ++ dealt c a := by
  obtain ⟨_, _, seen, rest⟩ := eval_bind_eq_ok.mp ran
  cases seen
  obtain ⟨b, d, did, rest⟩ := eval_bind_eq_ok.mp rest
  cases rest
  exact ⟨did, rfl⟩

theorem book_bind_eq_ok {x : BookM α} {f : α → BookM β} {b : β}
    (ran : eval ((x >>= f) book) c = .ok ((b, book'), c')) :
    ∃ a book₁ d, eval (x book) c = .ok ((a, book₁), d) ∧
      eval (f a book₁) d = .ok ((b, book'), c') := by
  rw [Book.bind_apply] at ran
  obtain ⟨r, d, first, second⟩ := eval_bind_eq_ok.mp ran
  exact ⟨r.1, r.2, d, first, second⟩

/-- A round that ends the wait has taken the message it answers. -/
theorem told_round {a : Except TaskError (Option Message)} (d : Core)
    (ran : eval (Book.round x id book) c = .ok ((some a, book'), c')) :
    book' = book ++ (Call.receiveOrSleep id).dealings d (answerTask .message a) := by
  obtain ⟨e, ran, -⟩ := masked_eq_ok ran
  obtain ⟨r, book₁, f, tried, rest⟩ := book_bind_eq_ok ran
  obtain ⟨-, rfl⟩ := noting_eq_ok tried
  cases r with
  | refused | received | stuck =>
    cases rest
    rfl
  | suspended w =>
    obtain ⟨_, _, _, -, back⟩ := book_bind_eq_ok rest
    cases back

theorem told_receiveOrSleep (elsewhere : Books x y) (d : Core) (rounds : Nat)
    {a : Except TaskError (Option Message)}
    (ran : eval (Book.receiveOrSleep x id rounds book) c = .ok ((a, book'), c')) :
    ∃ meanwhile, book' = book ++ meanwhile ++
      (Call.receiveOrSleep id).dealings d (answerTask .message a) := by
  induction rounds generalizing book c with
  | zero =>
    cases ran
    exact ⟨[], by simp [answerTask, Call.dealings]⟩
  | succ rounds ih =>
    obtain ⟨answer, book₁, e, first, rest⟩ := book_bind_eq_ok ran
    cases answer with
    | some b =>
      cases rest
      exact ⟨[], by rw [List.append_nil, told_round d first]⟩
    | none =>
      obtain ⟨ds, rfl, -⟩ := (books_round elsewhere id).told first
      obtain ⟨meanwhile, told⟩ := ih rest
      exact ⟨ds ++ meanwhile, by rw [told, List.append_assoc book]⟩

/-- What an act dealt itself stands last in the book, behind what went on meanwhile. -/
theorem told_perform (elsewhere : Books x y) (a : Act) {r : Answer}
    (ran : eval (Book.perform x a book) c = .ok ((r, book'), c')) :
    ∃ meanwhile, book' = book ++ meanwhile ++ a.dealings c r ∧
      (a.waits = false → meanwhile = []) := by
  have straight (noted : Book.perform x a = Book.noting (perform (Pure.pure ()) a) a.dealings) :
      ∃ meanwhile, book' = book ++ meanwhile ++ a.dealings c r ∧
        (a.waits = false → meanwhile = []) := by
    rw [noted] at ran
    obtain ⟨-, told⟩ := noting_eq_ok ran
    exact ⟨[], by rw [told, List.append_nil], fun _ => rfl⟩
  cases a with
  | call k =>
    cases k with
    | sleep id =>
      obtain ⟨ds, told, -⟩ := (books_perform elsewhere (.call (.sleep id))).told ran
      have nothing : (Act.call (.sleep id)).dealings c r = [] := rfl
      exact ⟨ds, by rw [told, nothing, List.append_nil], nofun⟩
    | receiveOrSleep id =>
      obtain ⟨_, _, _, seen, rest⟩ := book_bind_eq_ok ran
      cases seen
      rw [map_eq_pure_bind] at rest
      obtain ⟨a, _, _, waited, rest⟩ := book_bind_eq_ok rest
      cases rest
      obtain ⟨meanwhile, told⟩ := told_receiveOrSleep elsewhere c _ waited
      exact ⟨meanwhile, told, nofun⟩
    | _ => exact straight rfl
  | _ => exact straight rfl

end

/-! ## Runs -/

/-- What a core can come to, with the book that was kept from its start on. By `operation` and
`around` it is also seen in the midst of an act, where a caller has left it to others. -/
inductive Run : List Dealing → Core → Prop where
  | start (cr3 : Nat) (memory : Memory) (frames : Frames) (idleEntry : UInt64)
      (scripts : List (List Act)) (areas : Stacks) :
      Run [] (new cr3 memory frames idleEntry scripts areas).value
  | act {book book' : List Dealing} {c c' : Core} {r : Answer} (depth : Nat) (a : Act) :
      Run book c → eval (Book.perform (Book.away depth) a book) c = .ok ((r, book'), c') →
      Run book' c'
  /-- An operation on the scheduler alone, under its lock. -/
  | operation {book : List Dealing} {c : Core} (op : Scheduler.Operation) : Run book c →
      Run (book ++ op.dealings (c.tasks.value.perform op).value.1)
        { c with tasks := .new (c.tasks.value.perform op).value.2 }
  | around {book : List Dealing} {c : Core} (interrupts : Interrupts) (scripts : List (List Act))
      (events : List Event) : Run book c → Run book { c with interrupts, scripts, events }

theorem Run.booked (run : Run book c) : Scheduler.Booked book c.tasks.value := by
  induction run with
  | start cr3 _ _ idleEntry _ areas => exact .start idleEntry (UInt64.ofNat cr3) areas
  | act depth a _ ran ih =>
    obtain ⟨_, _, _, booked⟩ := (books_perform (books_away depth) a).told ran
    exact booked ih
  | operation op _ ih => exact ih.next op
  | around _ _ _ _ ih => exact ih

/-- Whatever a core comes to, a book can be kept of the way there. -/
theorem Reachable.exists_run (reach : Reachable c) : ∃ book, Run book c := by
  induction reach with
  | start cr3 memory frames idleEntry scripts areas =>
    exact ⟨[], .start cr3 memory frames idleEntry scripts areas⟩
  | @next c c' r events a _ done ih =>
    obtain ⟨book, run⟩ := ih
    obtain ⟨ran, -⟩ := step_eq_ok.mp done
    obtain ⟨ds, kept, -⟩ := (books_perform (books_away c.scripts.length) a).kept book ran
    exact ⟨book ++ ds, .act _ a (run.around c.interrupts c.scripts []) kept⟩
  | schedule op _ ih =>
    obtain ⟨book, run⟩ := ih
    exact ⟨_, run.operation op⟩
  | around interrupts scripts events _ ih =>
    obtain ⟨book, run⟩ := ih
    exact ⟨book, run.around interrupts scripts events⟩

theorem Run.balanced (run : Run book c) (id : TaskId) :
    sentTo id book = takenBy id book ++ c.tasks.value.mail id :=
  Scheduler.balanced_booked run.booked id

/-- **Mailboxes lose nothing.** Whatever a core does, the messages that a task was handed and then
those in its mailbox are the ones that were sent to it, in the order of sending. A book can be kept
of every run: it does not change the acts, and each act puts down its own dealings when it is done,
behind what others dealt while it had given control away. A send is refused only if there is no such
task, and then nothing changes. -/
theorem mailboxes_lossless :
    (∀ (book : List Dealing) (c : Core), Run book c → ∀ id,
      sentTo id book = takenBy id book ++ c.tasks.value.mail id) ∧
    (∀ c : Core, Reachable c → ∃ book, Run book c) ∧
    (∀ (book : List Dealing) (c : Core) (depth : Nat) (a : Act),
      (eval (Book.perform (Book.away depth) a book) c).map (fun r => (r.1.1, r.2)) =
          eval (perform (away depth) a) c ∧
      ∀ r book' c', eval (Book.perform (Book.away depth) a book) c = .ok ((r, book'), c') →
        ∃ meanwhile, book' = book ++ meanwhile ++ a.dealings c r ∧
          (a.waits = false → meanwhile = [])) ∧
    ∀ (s : Scheduler) (id : TaskId) (m : Message),
      (s.task? id ≠ none ∧ (s.send id m).value.1 = .ok ()) ∨
        (s.task? id = none ∧ (s.send id m).value = (.error (.noSuchTask id), s)) := by
  refine ⟨fun _ _ => Run.balanced, fun _ => Reachable.exists_run, ?acts, Scheduler.send_answer⟩
  case acts =>
    intro book c depth a
    exact ⟨(books_perform (books_away depth) a).erase book c,
      fun r book' c' ran => told_perform (books_away depth) a ran⟩

/-- The main task waits. Meanwhile a timer expires for it, and it is sent two messages more. It is
handed the first. -/
theorem mailboxes_lossless_main :
    let script : List Act := [.call (.addTimer 1 7 1), .call (.timerInterrupt .zero),
      .call (.send 1 .interruptXhci), .call (.send 1 .layerFinish)]
    let c := (new 0 .zero (.full 1) 0 [script]).value
    let book : List Dealing := [.sent 1 (.timerTimeout 1 7), .sent 1 .interruptXhci,
      .sent 1 .layerFinish, .taken 1 (.timerTimeout 1 7)]
    Run [] c ∧ ∃ r c', eval (Book.perform (Book.away 1) (.call (.receiveOrSleep 1)) []) c =
      .ok ((r, book), c') ∧ Run book c' ∧ c'.tasks.value.mail 1 = [.interruptXhci, .layerFinish] := by
  intro script c book
  have start : Run [] c := .start 0 .zero (.full 1) 0 [script] _
  have told : (eval (Book.perform (Book.away 1) (.call (.receiveOrSleep 1)) []) c).toOption.map
      (fun r => r.1.2) = some book := by
    simp only [c, script, book]
    decide +kernel
  cases ran : eval (Book.perform (Book.away 1) (.call (.receiveOrSleep 1)) []) c with
  | error p =>
    rw [ran] at told
    cases told
  | ok r =>
    rw [ran] at told
    obtain ⟨⟨answer, book'⟩, c'⟩ := r
    obtain rfl : book' = book := Option.some.inj told
    have run : Run book c' := .act 1 (.call (.receiveOrSleep 1)) start ran
    have balance : [Message.timerTimeout 1 7] ++ [.interruptXhci, .layerFinish] =
        [.timerTimeout 1 7] ++ c'.tasks.value.mail 1 := mailboxes_lossless.1 book c' run 1
    exact ⟨start, answer, c', rfl, run, (List.append_cancel_left balance).symm⟩

end Core

end Nucleus
