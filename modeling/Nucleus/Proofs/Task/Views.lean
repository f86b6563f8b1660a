import Nucleus.Task.Operation

/-!
# The scheduler seen through its tasks and queues

A scheduler is read through `task?` and `queue`; what is changed in it comes down to a change of
one task, of one queue, or of the turn. Nothing outside this module opens an operation up.

* `task?_modify`, `queue_setQueue`: what the two elementary changes do to what is read.
* `left_prime`, `left_receive`, `left_setWindow`: operations that come down to one such change.
* `woken`, `requeued`, `carried`: the three ways in which a task comes into a queue.
* `rotate_cases`, `sleep_cases`, `wakeAt_cases`, `send_cases`, `receive_cases`: all that an
  operation can answer and leave behind.
* `map_wakeAt`, `map_sleep`: what does not depend on where a task runs stays as it is.
-/

namespace Nucleus.Scheduler
open Platform
variable (s : Scheduler)

/-! ## Elementary changes -/

@[simp] theorem task?_zero : s.task? 0 = none := by
  simp [task?]

@[simp] theorem task?_modify (id j : Nat) (g : Task → Task) :
    (s.modify id g).task? j = if j = id then (s.task? j).map g else s.task? j := by
  by_cases none : j = 0
  · subst none
    split <;> simp
  · by_cases zero : id = 0
    · simp [modify, zero, none]
    · have places : id - 1 = j - 1 ↔ j = id := by omega
      simp [modify, task?, zero, none, Array.getElem?_modify, places]

@[simp] theorem queue_modify (id : TaskId) (g : Task → Task) (l : Priority) :
    (s.modify id g).queue l = s.queue l := by
  unfold modify
  split <;> rfl

@[simp] theorem level_modify (id : TaskId) (g : Task → Task) : (s.modify id g).level = s.level := by
  unfold modify
  split <;> rfl

@[simp] theorem idle_modify (id : TaskId) (g : Task → Task) : (s.modify id g).idle = s.idle := by
  unfold modify
  split <;> rfl

@[simp] theorem changePending_modify (id : TaskId) (g : Task → Task) :
    (s.modify id g).changePending = s.changePending := by
  unfold modify
  split <;> rfl

@[simp] theorem queue_setQueue (l m : Priority) (q : List TaskId) :
    (s.setQueue l q).queue m = if m = l then q else s.queue m := by
  have same : (l : Nat) = m ↔ m = l := by rw [Fin.ext_iff, eq_comm]
  simp only [setQueue, queue, Fin.getElem_fin, Vector.getElem_set, same]

@[simp] theorem task?_setQueue (l : Priority) (q : List TaskId) (id : TaskId) :
    (s.setQueue l q).task? id = s.task? id := rfl

@[simp] theorem level_setQueue (l : Priority) (q : List TaskId) :
    (s.setQueue l q).level = s.level := rfl

@[simp] theorem idle_setQueue (l : Priority) (q : List TaskId) :
    (s.setQueue l q).idle = s.idle := rfl

@[simp] theorem task?_mk (queues : Vector (List TaskId) 8) (l : Priority) (pending : Bool)
    (idle id : TaskId) : task? ⟨s.tasks, queues, l, pending, idle⟩ id = s.task? id := rfl

@[simp] theorem queue_mk (tasks : Array Task) (l m : Priority) (pending : Bool) (idle : TaskId) :
    queue ⟨tasks, s.queues, l, pending, idle⟩ m = s.queue m := rfl

/-- Nothing changes if the task does not. -/
theorem modify_eq_self {s : Scheduler} {id : TaskId} {g : Task → Task}
    (same : ∀ t, s.task? id = some t → g t = t) : s.modify id g = s := by
  by_cases zero : id = 0
  · rw [modify, if_pos zero]
  · have tasks : s.tasks.modify (id - 1) g = s.tasks := by
      refine Array.ext_getElem? fun i => ?_
      rw [Array.getElem?_modify]
      split
      · next here =>
        subst here
        cases known : s.tasks[id - 1]? with
        | none => rfl
        | some t => exact congrArg some (same t (by rw [task?, if_neg zero, known]))
      · rfl
    rw [modify, if_neg zero, tasks]

theorem modify_of_unknown {s : Scheduler} {id : TaskId} {g : Task → Task}
    (unknown : s.task? id = none) : s.modify id g = s :=
  modify_eq_self fun t known => by rw [unknown] at known; cases known

theorem left_prime (id : TaskId) (entry : UInt64) (arg : Int64) (cr3 : UInt64) (areas : Stacks) :
    (s.prime id entry arg cr3 areas).2 =
      s.modify id fun t => t.prime id entry arg cr3 (areas id) := by
  rw [prime]
  split
  · next unknown => exact (modify_of_unknown unknown).symm
  · rfl

theorem left_receive (id : TaskId) :
    (s.receive id).2 = s.modify id fun t => { t with mailbox := t.mailbox.tail } := by
  rw [receive]
  split
  · next unknown => exact (modify_of_unknown unknown).symm
  · rfl

theorem left_setWindow (id : TaskId) (window : Span) :
    (s.setWindow id window).2 = s.modify id fun t => { t with window := window } := by
  rw [setWindow]
  split
  · next unknown => exact (modify_of_unknown unknown).symm
  · rfl

theorem task?_push (id : Nat) (t : Task) :
    task? { s with tasks := s.tasks.push t } id =
      if id = s.tasks.size + 1 then some t else s.task? id := by
  unfold task?
  by_cases zero : id = 0
  · simp [zero]
  · have place : id - 1 = s.tasks.size ↔ id = s.tasks.size + 1 := by omega
    simp only [zero, if_false, Array.getElem?_push, place]

theorem task?_size : s.task? (s.tasks.size + 1) = none := by
  simp [task?]

theorem modify_push (t : Task) (g : Task → Task) :
    modify { s with tasks := s.tasks.push t } (s.tasks.size + 1) g =
      { s with tasks := s.tasks.push (g t) } := by
  have last : (s.tasks.push t).modify s.tasks.size g = s.tasks.push (g t) := by
    refine Array.ext_getElem? fun i => ?_
    rw [Array.getElem?_modify, Array.getElem?_push, Array.getElem?_push]
    grind
  rw [modify, if_neg (Nat.succ_ne_zero _)]
  exact congrArg (fun tasks => { s with tasks }) last

/-! ## The head of the current queue -/

theorem isHead_iff {s : Scheduler} {id : TaskId} :
    s.isHead id = true ↔ ∃ rest, s.queue s.level = id :: rest := by
  rw [isHead, beq_iff_eq, List.head?_eq_some_iff]

theorem executing_of_cons {s : Scheduler} {id : TaskId} {rest : List TaskId}
    (h : s.queue s.level = id :: rest) : s.executing = id := by
  simp [executing, h]

/-! ## Coming into a queue -/

/-- The sleeping task `id` runs at `l`, behind those that were there. -/
def woken (id : TaskId) (l : Priority) : Scheduler :=
  { s.start id l with
    changePending := (s.start id l).changePending || (s.start id l).level < l }

/-- The runnable task `id`, which does not execute, goes over from `old` to `l`. -/
def requeued (id : TaskId) (old l : Priority) : Scheduler :=
  let s := ((s.modify id fun t => { t with level := l }).remove id old).enqueue id l
  { s with changePending := s.changePending || s.level < l }

/-- The executing task `id` takes its turn with it to `l`. -/
def carried (id : TaskId) (l : Priority) : Scheduler :=
  let s := s.modify id fun t => { t with level := l }
  let pending := s.changePending || l < s.level
  let s := s.setQueue s.level (s.queue s.level).tail
  let s := s.setQueue l (id :: s.queue l)
  { s with changePending := pending, level := l }

@[simp] theorem task?_woken (id j : TaskId) (l : Priority) :
    (s.woken id l).task? j =
      if j = id then (s.task? j).map fun t => { t with level := l, running := true }
      else s.task? j := by
  simp [woken, start, enqueue]

@[simp] theorem queue_woken (id : TaskId) (l m : Priority) :
    (s.woken id l).queue m = if m = l then s.queue m ++ [id] else s.queue m := by
  by_cases here : m = l <;> simp [woken, start, enqueue, here]

@[simp] theorem level_woken (id : TaskId) (l : Priority) : (s.woken id l).level = s.level := by
  simp [woken, start, enqueue]

@[simp] theorem idle_woken (id : TaskId) (l : Priority) : (s.woken id l).idle = s.idle := by
  simp [woken, start, enqueue]

@[simp] theorem changePending_woken (id : TaskId) (l : Priority) :
    (s.woken id l).changePending = (s.changePending || s.level < l) := by
  simp [woken, start, enqueue, setQueue]

@[simp] theorem task?_requeued (id j : TaskId) (old l : Priority) :
    (s.requeued id old l).task? j =
      if j = id then (s.task? j).map fun t => { t with level := l } else s.task? j := by
  simp [requeued, enqueue, remove]

@[simp] theorem queue_requeued (id : TaskId) (old l m : Priority) :
    (s.requeued id old l).queue m =
      (if m = old then (s.queue m).filter (· != id) else s.queue m) ++
        if m = l then [id] else [] := by
  simp only [requeued, enqueue, remove, queue_mk, queue_setQueue, queue_modify]
  grind

@[simp] theorem level_requeued (id : TaskId) (old l : Priority) :
    (s.requeued id old l).level = s.level := by
  simp [requeued, enqueue, remove]

@[simp] theorem idle_requeued (id : TaskId) (old l : Priority) :
    (s.requeued id old l).idle = s.idle := by
  simp [requeued, enqueue, remove]

@[simp] theorem changePending_requeued (id : TaskId) (old l : Priority) :
    (s.requeued id old l).changePending = (s.changePending || s.level < l) := by
  simp [requeued, enqueue, remove, setQueue]

@[simp] theorem task?_carried (id j : TaskId) (l : Priority) :
    (s.carried id l).task? j =
      if j = id then (s.task? j).map fun t => { t with level := l } else s.task? j := by
  simp [carried]

theorem queue_carried {id : TaskId} {l : Priority} (away : l ≠ s.level) (m : Priority) :
    (s.carried id l).queue m =
      if m = l then id :: s.queue l
      else if m = s.level then (s.queue s.level).tail else s.queue m := by
  simp [carried, away]

@[simp] theorem level_carried (id : TaskId) (l : Priority) : (s.carried id l).level = l := rfl

@[simp] theorem idle_carried (id : TaskId) (l : Priority) : (s.carried id l).idle = s.idle := by
  simp [carried]

@[simp] theorem changePending_carried (id : TaskId) (l : Priority) :
    (s.carried id l).changePending = (s.changePending || l < s.level) := by
  simp [carried]

/-! ## The head stays in front -/

theorem head_woken (id : TaskId) (l : Priority) {x : TaskId} {rest : List TaskId}
    (line : s.queue s.level = x :: rest) :
    ∃ rest', (s.woken id l).queue s.level = x :: rest' := by
  rw [queue_woken, line]
  split
  · exact ⟨rest ++ [id], rfl⟩
  · exact ⟨rest, rfl⟩

theorem head_filter {id x : TaskId} {rest : List TaskId} (other : x ≠ id) :
    (x :: rest).filter (· != id) = x :: rest.filter (· != id) :=
  List.filter_cons_of_pos (by simpa using other)

theorem head_requeued {id x : TaskId} (old l : Priority) {rest : List TaskId}
    (line : s.queue s.level = x :: rest) (other : x ≠ id) :
    ∃ rest', (s.requeued id old l).queue s.level = x :: rest' := by
  rw [queue_requeued, line, head_filter other]
  split <;> exact ⟨_, rfl⟩

@[simp] theorem queue_remove (id : TaskId) (l m : Priority) :
    (s.remove id l).queue m = if m = l then (s.queue m).filter (· != id) else s.queue m := by
  rw [remove, queue_setQueue]
  split
  · next here => rw [here]
  · rfl

theorem head_remove {id x : TaskId} (l : Priority) {rest : List TaskId}
    (line : s.queue s.level = x :: rest) (other : x ≠ id) :
    ∃ rest', (s.remove id l).queue s.level = x :: rest' := by
  rw [queue_remove, line, head_filter other]
  split <;> exact ⟨_, rfl⟩

theorem head_ne_of_isHead {s : Scheduler} {id x : TaskId} {rest : List TaskId}
    (line : s.queue s.level = x :: rest) (queued : s.isHead id = false) : x ≠ id := by
  rintro rfl
  simp [isHead, line] at queued

/-! ## The turn goes on -/

/-- The current queue when its head has had its turn. -/
def leftover (sleeps : Bool) : List TaskId :=
  if sleeps then (s.queue s.level).tail else (s.queue s.level).tail ++ [s.executing]

theorem rotate_cases {s : Scheduler} {sleeps : Bool} {P : TaskId × Scheduler → Prop}
    (rescans : s.changePending = true ∨ s.leftover sleeps = [] →
      P (s.executing, { s.setQueue s.level (s.leftover sleeps) with
        changePending := false
        level := (s.setQueue s.level (s.leftover sleeps)).highest?.getD s.level }))
    (goesOn : s.changePending = false → s.leftover sleeps ≠ [] →
      P (s.executing, s.setQueue s.level (s.leftover sleeps))) :
    P (s.rotate sleeps) := by
  have folded : s.rotate sleeps =
      if s.changePending || (s.leftover sleeps).isEmpty then
        (s.executing, { s.setQueue s.level (s.leftover sleeps) with
          changePending := false
          level := (s.setQueue s.level (s.leftover sleeps)).highest?.getD s.level })
      else (s.executing, s.setQueue s.level (s.leftover sleeps)) := rfl
  rw [folded]
  split
  · next due => exact rescans (by simpa using due)
  · next due =>
    simp only [Bool.or_eq_true, List.isEmpty_iff, not_or, Bool.not_eq_true] at due
    exact goesOn due.1 due.2

theorem former_rotate (sleeps : Bool) : (s.rotate sleeps).1 = s.executing :=
  rotate_cases (P := fun r => r.1 = s.executing) (fun _ => rfl) (fun _ _ => rfl)

@[simp] theorem task?_rotate (sleeps : Bool) (j : TaskId) :
    (s.rotate sleeps).2.task? j = s.task? j :=
  rotate_cases (P := fun r => r.2.task? j = s.task? j) (fun _ => rfl) (fun _ _ => rfl)

@[simp] theorem idle_rotate (sleeps : Bool) : (s.rotate sleeps).2.idle = s.idle :=
  rotate_cases (P := fun r => r.2.idle = s.idle) (fun _ => rfl) (fun _ _ => rfl)

theorem queue_rotate (sleeps : Bool) (m : Priority) :
    (s.rotate sleeps).2.queue m = if m = s.level then s.leftover sleeps else s.queue m := by
  rw [← queue_setQueue]
  exact rotate_cases
    (P := fun r => r.2.queue m = (s.setQueue s.level (s.leftover sleeps)).queue m)
    (fun _ => rfl) (fun _ _ => rfl)

theorem value_yield (sleeps : Bool) :
    (s.yield sleeps).value =
      (((s.rotate sleeps).2.plan s.executing).value, (s.rotate sleeps).2) := by
  simp [yield, former_rotate]

theorem value_plan {s : Scheduler} {former : TaskId} {t u : Task}
    (known : s.task? former = some t) (next : s.task? s.executing = some u) :
    (s.plan former).value =
      if s.executing = former then none else some ⟨former, s.executing⟩ := by
  simp only [plan, known, next]
  split <;> rfl

theorem highest?_eq_some {s : Scheduler} {l : Priority} (h : s.highest? = some l) :
    s.queue l ≠ [] ∧ ∀ m, l < m → s.queue m = [] := by
  obtain ⟨here, above, below, parts, none_above⟩ := List.find?_eq_some_iff_append.mp h
  refine ⟨by simpa using here, fun m higher => ?_⟩
  have descending : (above ++ l :: below).Pairwise (fun a b : Priority => b < a) := by
    rw [← parts]
    decide
  have listed : m ∈ above ++ l :: below := by
    rw [← parts]
    simp
  rcases List.mem_append.mp listed with early | late
  · simpa using none_above m early
  · have lower : m ≤ l := by
      rcases List.mem_cons.mp late with rfl | late
      · exact Fin.le_refl _
      · exact Fin.le_of_lt (List.rel_of_pairwise_cons (List.pairwise_append.mp descending).2.1 late)
    exact absurd higher (Fin.not_lt.mpr lower)

theorem exists_highest {s : Scheduler} {l : Priority} (h : s.queue l ≠ []) :
    ∃ m, s.highest? = some m := by
  cases found : s.highest? with
  | some m => exact ⟨m, rfl⟩
  | none =>
    have empty := List.find?_eq_none.mp found l (by simp)
    simp [h] at empty

/-- As long as anybody is queued, so is the task whose turn it is. -/
theorem head_rotate {s : Scheduler} {sleeps : Bool} {l : Priority}
    (someone : (s.rotate sleeps).2.queue l ≠ []) :
    (s.rotate sleeps).2.queue (s.rotate sleeps).2.level ≠ [] := by
  revert someone
  refine rotate_cases (P := fun r => r.2.queue l ≠ [] → r.2.queue r.2.level ≠ []) ?_ ?_
  · intro _ someone
    obtain ⟨m, found⟩ := exists_highest (s := s.setQueue s.level (s.leftover sleeps)) someone
    simp only [queue_mk, found, Option.getD_some]
    exact (highest?_eq_some found).1
  · intro _ left _
    simpa using left

/-! ## Operations, case by case -/

theorem sleep_cases {s : Scheduler} {id : TaskId}
    {P : Except TaskError (Option Switch) × Scheduler → Prop}
    (unknown : s.task? id = none → P (.error (.noSuchTask id), s))
    (stays : ∀ t, s.task? id = some t → t.running = false ∨ id = s.idle → P (.ok none, s))
    (head : ∀ t, s.task? id = some t → t.running = true → id ≠ s.idle → s.isHead id = true →
      P (.ok ((s.modify id fun t => { t with running := false }).yield true).value.1,
        ((s.modify id fun t => { t with running := false }).yield true).value.2))
    (queued : ∀ t, s.task? id = some t → t.running = true → id ≠ s.idle → s.isHead id = false →
      P (.ok none, (s.modify id fun t => { t with running := false }).remove id t.level)) :
    P (s.sleep id).value := by
  have isHead_modify (g : Task → Task) : (s.modify id g).isHead id = s.isHead id := by
    simp [isHead]
  unfold sleep
  cases known : s.task? id with
  | none => exact unknown known
  | some t =>
    cases runs : t.running with
    | false => simpa [runs] using stays t known (.inl runs)
    | true =>
      by_cases idles : id = s.idle
      · simpa [runs, idles] using stays t known (.inr idles)
      · cases first : s.isHead id with
        | true => simpa [runs, idles, isHead_modify, first] using head t known runs idles first
        | false => simpa [runs, idles, isHead_modify, first] using queued t known runs idles first

theorem wakeAt_cases {s : Scheduler} {id : TaskId} {target : Option Priority}
    {P : Except TaskError Unit × Scheduler → Prop}
    (unknown : s.task? id = none → P (.error (.noSuchTask id), s))
    (steady : ∀ t, s.task? id = some t → t.running = true → target.getD t.level = t.level →
      P (.ok (), s))
    (queued : ∀ t l, s.task? id = some t → t.running = true → target = some l → l ≠ t.level →
      s.isHead id = false → P (.ok (), s.requeued id t.level l))
    (head : ∀ t l, s.task? id = some t → t.running = true → target = some l → l ≠ t.level →
      s.isHead id = true → P (.ok (), s.carried id l))
    (bare : ∀ t, s.task? id = some t → t.running = false → t.hasContext = false →
      P (.error (.notInitialized id), s))
    (sleeping : ∀ t, s.task? id = some t → t.running = false → t.hasContext = true →
      P (.ok (), s.woken id (target.getD t.level))) :
    P (s.wakeAt id target).value := by
  have isHead_modify (g : Task → Task) : (s.modify id g).isHead id = s.isHead id := by
    simp [isHead]
  unfold wakeAt
  cases known : s.task? id with
  | none => exact unknown known
  | some t =>
    cases runs : t.running with
    | true =>
      cases asked : target with
      | none => simpa [runs] using steady t known runs (by rw [asked]; rfl)
      | some l =>
        by_cases same : l = t.level
        · simpa [runs, relevel, same] using steady t known runs (by rw [asked]; exact same)
        · cases first : s.isHead id with
          | true =>
            simpa [runs, relevel, same, isHead_modify, first, carried] using
              head t l known runs asked same first
          | false =>
            simpa [runs, relevel, same, isHead_modify, first, requeued] using
              queued t l known runs asked same first
    | false =>
      cases primed : t.hasContext with
      | false => simpa [runs, primed] using bare t known runs primed
      | true => simpa [runs, primed, woken] using sleeping t known runs primed

theorem wakeup_cases {s : Scheduler} {id : TaskId} {level : Option Nat}
    {P : Except TaskError Unit × Scheduler → Prop}
    (invalid : ∀ l, level = some l → maxLevel < l → P (.error (.invalidLevel l), s))
    (valid : ∀ target : Option Priority, level = target.map Fin.val →
      P (s.wakeAt id target).value) :
    P (s.wakeup id level).value := by
  unfold wakeup
  cases level with
  | none => exact valid none rfl
  | some l =>
    by_cases bound : l < 8
    · simpa [bound] using valid (some ⟨l, bound⟩) rfl
    · simpa [bound] using invalid l rfl (by simp only [maxLevel]; omega)

theorem send_cases {s : Scheduler} {id : TaskId} {message : Message}
    {P : Except TaskError Unit × Scheduler → Prop}
    (unknown : s.task? id = none → P (.error (.noSuchTask id), s))
    (bare : ∀ t, s.task? id = some t → t.hasContext = false →
      P (.ok (), s.modify id fun t => { t with mailbox := t.mailbox ++ [message] }))
    (primed : ∀ t, s.task? id = some t → t.hasContext = true →
      P ((s.modify id fun t => { t with mailbox := t.mailbox ++ [message] }).wakeAt
        id none).value) :
    P (s.send id message).value := by
  unfold send
  cases known : s.task? id with
  | none => exact unknown known
  | some t =>
    cases context : t.hasContext with
    | false => simpa [context] using bare t known context
    | true => simpa [context, wakeup] using primed t known context

theorem receive_cases {s : Scheduler} {id : TaskId}
    {P : Except TaskError (Option Message) × Scheduler → Prop}
    (unknown : s.task? id = none → P (.error (.noSuchTask id), s))
    (empty : ∀ t, s.task? id = some t → t.mailbox = [] → P (.ok none, s))
    (mail : ∀ t m rest, s.task? id = some t → t.mailbox = m :: rest →
      P (.ok (some m), s.modify id fun t => { t with mailbox := t.mailbox.tail })) :
    P (s.receive id) := by
  unfold receive
  cases known : s.task? id with
  | none => exact unknown known
  | some t =>
    cases lies : t.mailbox with
    | cons m rest => simpa [lies] using mail t m rest known lies
    | nil =>
      -- an empty mailbox is left as it was
      have same : (s.modify id fun t => { t with mailbox := t.mailbox.tail }) = s := by
        apply modify_eq_self
        intro u here
        rw [known] at here
        cases here
        rw [lies, List.tail_nil, ← lies]
      simpa [lies, same] using empty t known lies

/-! ## What is read off a task -/

section
variable {α : Type} {f : Task → α} {s s' : Scheduler} {i j : TaskId} {g : Task → Task}

theorem map_of_task {h : α → α}
    (same : s'.task? j = if j = i then (s.task? j).map g else s.task? j)
    (acts : ∀ t, f (g t) = h (f t)) :
    (s'.task? j).map f = if j = i then ((s.task? j).map f).map h else (s.task? j).map f := by
  rw [same]
  split
  · cases s.task? j with
    | none => rfl
    | some t => exact congrArg some (acts t)
  · rfl

theorem map_of_kept (same : s'.task? j = if j = i then (s.task? j).map g else s.task? j)
    (keeps : ∀ t, f (g t) = f t) : (s'.task? j).map f = (s.task? j).map f := by
  rw [map_of_task (h := id) same keeps]
  split
  · rw [Option.map_id, id_eq]
  · rfl

/-- What `f` reads off a task does not depend on where it runs. -/
structure Placeless (f : Task → α) : Prop where
  level : ∀ t l, f { t with level := l } = f t
  running : ∀ t r, f { t with running := r } = f t

theorem map_wakeAt (reads : Placeless f) (target : Option Priority) :
    ((s.wakeAt i target).value.2.task? j).map f = (s.task? j).map f := by
  apply wakeAt_cases (P := fun r => (r.2.task? j).map f = (s.task? j).map f)
  case unknown => exact fun _ => rfl
  case steady => exact fun _ _ _ _ => rfl
  case queued => exact fun _ _ _ _ _ _ _ => map_of_kept (task?_requeued ..) (reads.level · _)
  case head => exact fun _ _ _ _ _ _ _ => map_of_kept (task?_carried ..) (reads.level · _)
  case bare => exact fun _ _ _ _ => rfl
  case sleeping =>
    intro t _ _ _
    apply map_of_kept (task?_woken ..)
    intro u
    exact (reads.running { u with level := target.getD t.level } true).trans (reads.level u _)

theorem map_sleep (reads : Placeless f) :
    ((s.sleep i).value.2.task? j).map f = (s.task? j).map f := by
  have stopped : ((s.modify i fun t => { t with running := false }).task? j).map f =
      (s.task? j).map f := map_of_kept (s.task?_modify i j _) (reads.running · false)
  apply sleep_cases (P := fun r => (r.2.task? j).map f = (s.task? j).map f)
  case unknown => exact fun _ => rfl
  case stays => exact fun _ _ _ => rfl
  case head =>
    intro _ _ _ _ _
    rw [value_yield, task?_rotate]
    exact stopped
  case queued => exact fun _ _ _ _ _ => stopped

end

end Nucleus.Scheduler
