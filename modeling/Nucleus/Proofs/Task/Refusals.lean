import Nucleus.Proofs.Task.Bystanders
import Nucleus.Proofs.Task.Contexts
import Nucleus.Proofs.Task.Mailboxes

/-!
# Refusals

The scheduler refuses an operation for three reasons: the level does not exist, the task does not,
or there is nothing to resume. All checks that can fail come before the first change, so whatever
is refused has changed nothing.

* `Refusal`: the reasons, each with its exact condition.
* `Settled`: how an operation ends if it is refused for these reasons only.
* `size_run`: the tasks that are known are those that were created.
* `settled_perform`: so ends every operation.
-/

namespace Nucleus.Scheduler
open Platform
variable {s s' : Scheduler} {id : TaskId} {op : Operation} {e e' : TaskError}

/-- Whether an operation makes a task. -/
def Operation.creates : Operation → Bool
  | .create => true
  | _ => false

/-- Only `wakeup` can be asked for a level that does not exist. -/
def Operation.LevelExists : Operation → Prop
  | .wakeup _ (some l) => l ≤ maxLevel
  | _ => True

/-- The reasons for which an operation is refused by a scheduler that has made `created` tasks. -/
inductive Refusal (s : Scheduler) (created : Nat) : Operation → TaskError → Prop where
  /-- The level is looked at before the task is. -/
  | level {id : TaskId} {l : Nat} (high : maxLevel < l) :
      Refusal s created (.wakeup id (some l)) (.invalidLevel l)
  | unknown {op : Operation} {id : TaskId} (names : op.target? = some id) (exist : op.LevelExists)
      (none : id = 0 ∨ created < id) : Refusal s created op (.noSuchTask id)
  | bare {id : TaskId} {level : Option Nat} {t : Task}
      (exist : (Operation.wakeup id level).LevelExists) (known : s.task? id = some t)
      (sleeps : t.running = false) (bare : t.hasContext = false) :
      Refusal s created (.wakeup id level) (.notInitialized id)

/-! ## The tasks that there are -/

theorem task?_eq_none_iff {id : Nat} : s.task? id = none ↔ id = 0 ∨ s.tasks.size < id := by
  by_cases zero : id = 0
  · simp [zero]
  · rw [task?, if_neg zero, Array.getElem?_eq_none_iff]
    omega

/-- As many tasks are there as have numbers. -/
theorem size_of_known (same : ∀ j, s'.task? j = none ↔ s.task? j = none) :
    s'.tasks.size = s.tasks.size := by
  have here := task?_eq_none_iff.mp ((same _).mpr s.task?_size)
  have there := task?_eq_none_iff.mp ((same _).mp s'.task?_size)
  omega

theorem size_perform (inv : s.Invariant) (op : Operation) :
    (s.perform op).value.2.tasks.size = s.tasks.size + if op.creates then 1 else 0 := by
  by_cases new : op = .create
  · rw [new]
    exact Array.size_push _
  · have creates : op.creates = false := by
      cases op with
      | create => exact absurd rfl new
      | _ => rfl
    rw [creates]
    apply size_of_known
    intro j
    have known := congrArg Option.isNone (image_perform inv new j)
    rw [Option.isNone_map, Option.isNone_map] at known
    rw [← Option.isNone_iff_eq_none, ← Option.isNone_iff_eq_none, known]

/-- The tasks that are known are those that were created. -/
theorem size_run (inv : s.Invariant) (ops : List Operation) :
    (s.run ops).tasks.size = s.tasks.size + ops.countP Operation.creates := by
  induction ops generalizing s with
  | nil => rfl
  | cons op ops ih =>
    have later := ih (invariant_perform inv op)
    rw [size_perform inv] at later
    rw [List.countP_cons]
    exact later.trans (by omega)

/-! ## How an operation ends -/

/-- An operation ended with the reply and the scheduler `r`. It is refused exactly for the reasons
there are, and has changed nothing then. -/
structure Settled (s : Scheduler) (op : Operation) (r : Reply × Scheduler) : Prop where
  reasons : ∀ e, r.1 = .error e ↔ s.Refusal s.tasks.size op e
  kept : ∀ e, r.1 = .error e → r.2 = s

/-- An operation on `id` ended with `r`: it works if there is that task, and says so if not. -/
def Found {α : Type} (s : Scheduler) (id : TaskId) (r : Except TaskError α × Scheduler) : Prop :=
  (∃ t a, s.task? id = some t ∧ r.1 = .ok a) ∨
    (s.task? id = none ∧ r = (.error (.noSuchTask id), s))

/-- There is at most one reason. -/
theorem Refusal.unique (why : s.Refusal s.tasks.size op e) (why' : s.Refusal s.tasks.size op e') :
    e = e' := by
  cases why with
  | level high =>
    cases why' with
    | level => rfl
    | unknown _ exist _ | bare exist => exact absurd high (Nat.not_lt.mpr exist)
  | unknown names exist none =>
    cases why' with
    | level high => exact absurd high (Nat.not_lt.mpr exist)
    | unknown names' =>
      rw [names] at names'
      cases names'
      rfl
    | bare _ known =>
      cases names
      rw [task?_eq_none_iff.mpr none] at known
      cases known
  | bare exist known =>
    cases why' with
    | level high => exact absurd high (Nat.not_lt.mpr exist)
    | unknown names _ none =>
      cases names
      rw [task?_eq_none_iff.mpr none] at known
      cases known
    | bare => rfl

/-- A known task can be asked for anything, but to be woken it must be awake or have something to
resume. -/
theorem not_refused {t : Task} (names : op.target? = some id) (exist : op.LevelExists)
    (known : s.task? id = some t)
    (ready : ∀ level, op = .wakeup id level → t.running = true ∨ t.hasContext = true) :
    ¬s.Refusal s.tasks.size op e := by
  intro why
  cases why with
  | level high => exact absurd high (Nat.not_lt.mpr exist)
  | unknown names' _ none =>
    rw [names] at names'
    cases names'
    rw [task?_eq_none_iff.mpr none] at known
    cases known
  | bare _ known' sleeps bare =>
    cases names
    rw [known] at known'
    cases known'
    simpa [sleeps, bare] using ready _ rfl

theorem not_refused_of_nameless (nameless : op.target? = none) :
    ¬s.Refusal s.tasks.size op e := by
  intro why
  cases why with
  | level | bare => cases nameless
  | unknown names =>
    rw [nameless] at names
    cases names

namespace Settled

theorem refused (why : s.Refusal s.tasks.size op e) : s.Settled op (.error e, s) where
  reasons e' := by
    constructor
    · rintro ⟨⟩
      exact why
    · intro why'
      rw [why.unique why']
  kept _ _ := rfl

theorem accepted {a : Reply} (none : ∀ e, ¬s.Refusal s.tasks.size op e)
    (fine : ∀ e, a ≠ .error e) : s.Settled op (a, s') where
  reasons e := iff_of_false (fine e) (none e)
  kept e wrong := absurd wrong (fine e)

/-- To find the task is all that an operation needs which wakes nobody. -/
theorem of_found {α : Type} {r : Except TaskError α × Scheduler} (found : s.Found id r)
    (op : Operation) (ok : α → Reply) (names : op.target? = some id) (exist : op.LevelExists)
    (plain : ∀ level, op ≠ .wakeup id level) (fine : ∀ a e, ok a ≠ .error e) :
    s.Settled op (.ofExcept ok r.1, r.2) := by
  rcases found with ⟨t, a, known, done⟩ | ⟨unknown, rfl⟩
  · rw [done]
    exact .accepted (fun e => not_refused names exist known fun level wakes =>
      absurd wakes (plain level)) (fine a)
  · exact .refused (.unknown names exist (task?_eq_none_iff.mp unknown))

end Settled

/-! ## Each operation -/

theorem settled_wakeup (s : Scheduler) (id : TaskId) (level : Option Nat) :
    s.Settled (.wakeup id level) (s.perform (.wakeup id level)).value := by
  apply wakeup_cases
    (P := fun r => s.Settled (.wakeup id level) (.ofExcept (fun _ => .done) r.1, r.2))
  case invalid =>
    rintro l rfl high
    exact .refused (.level high)
  case valid =>
    rintro target rfl
    have exist : (Operation.wakeup id (target.map Fin.val)).LevelExists := by
      cases target with
      | none => trivial
      | some l => exact Nat.le_of_lt_succ l.isLt
    have woken {t : Task} {s' : Scheduler} (known : s.task? id = some t)
        (ready : t.running = true ∨ t.hasContext = true) :
        s.Settled (.wakeup id (target.map Fin.val)) (.done, s') :=
      .accepted (fun _ => not_refused rfl exist known fun _ _ => ready) nofun
    apply wakeAt_cases (P := fun r =>
      s.Settled (.wakeup id (target.map Fin.val)) (.ofExcept (fun _ => .done) r.1, r.2))
    case unknown =>
      exact fun unknown => .refused (.unknown rfl exist (task?_eq_none_iff.mp unknown))
    case steady => exact fun t known runs _ => woken known (.inl runs)
    case queued | head => exact fun t _ known runs _ _ _ => woken known (.inl runs)
    case bare => exact fun t known sleeps bare => .refused (.bare exist known sleeps bare)
    case sleeping => exact fun t known _ primed => woken known (.inr primed)

theorem found_sleep (s : Scheduler) (id : TaskId) : s.Found id (s.sleep id).value := by
  apply sleep_cases (P := s.Found id)
  case unknown => exact fun unknown => .inr ⟨unknown, rfl⟩
  case stays => exact fun t known _ => .inl ⟨t, _, known, rfl⟩
  case head | queued => exact fun t known _ _ _ => .inl ⟨t, _, known, rfl⟩

/-- The wakeup that comes after a message is never refused, so no message is left behind by a send
that fails. -/
theorem found_send (s : Scheduler) (id : TaskId) (message : Message) :
    s.Found id (s.send id message).value := by
  apply (s.send_answer id message).imp_left
  rintro ⟨known, sent⟩
  obtain ⟨t, known⟩ := Option.ne_none_iff_exists'.mp known
  exact ⟨t, (), known, sent⟩

theorem found_receive (s : Scheduler) (id : TaskId) : s.Found id (s.receive id) := by
  apply receive_cases (P := s.Found id)
  case unknown => exact fun unknown => .inr ⟨unknown, rfl⟩
  case empty => exact fun t known _ => .inl ⟨t, _, known, rfl⟩
  case mail => exact fun t _ _ known _ => .inl ⟨t, _, known, rfl⟩

theorem found_prime (s : Scheduler) (id : TaskId) (entry : UInt64) (arg : Int64) (cr3 : UInt64)
    (areas : Stacks) : s.Found id (s.prime id entry arg cr3 areas) := by
  cases known : s.task? id with
  | none => exact .inr ⟨known, by rw [prime, known]⟩
  | some t => exact .inl ⟨t, (), known, by rw [prime, known]⟩

theorem found_setWindow (s : Scheduler) (id : TaskId) (window : Span) :
    s.Found id (s.setWindow id window) := by
  cases known : s.task? id with
  | none => exact .inr ⟨known, by rw [setWindow, known]⟩
  | some t => exact .inl ⟨t, (), known, by rw [setWindow, known]⟩

/-- Every operation is refused exactly for the reasons there are, and has changed nothing then. -/
theorem settled_perform (s : Scheduler) (op : Operation) : s.Settled op (s.perform op).value := by
  cases op with
  | create => exact .accepted (fun _ => not_refused_of_nameless rfl) nofun
  | prime id entry arg cr3 areas =>
    have found := s.found_prime id entry arg cr3 areas
    exact .of_found found _ (fun _ => .done) rfl trivial nofun nofun
  | wakeup id level => exact settled_wakeup s id level
  | sleep id => exact .of_found (s.found_sleep id) _ .switch rfl trivial nofun nofun
  | send id message =>
    exact .of_found (s.found_send id message) _ (fun _ => .done) rfl trivial nofun nofun
  | receive id => exact .of_found (s.found_receive id) _ .message rfl trivial nofun nofun
  | setWindow id window =>
    exact .of_found (s.found_setWindow id window) _ (fun _ => .done) rfl trivial nofun nofun
  | preempt saved => exact .accepted (fun _ => not_refused_of_nameless rfl) nofun

end Nucleus.Scheduler
