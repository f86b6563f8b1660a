import Nucleus.Proofs.Task.Priority
import Nucleus.Proofs.Task.Switches

/-!
# Turns

The tasks of the highest level that runs take turns. Whoever waits there waits for the tasks in
front of it, and for the turn to come up to its level if it is still below.

* `ahead`: how many preemptions a task may still have to wait for.
* `ahead_perform`: no operation adds to them.
* `ahead_rotate`: whenever the turn moves on, one is over.
* `turn_comes_round`: so the turn comes after so many preemptions, whatever else is done meanwhile.
-/

namespace Nucleus.Scheduler
variable {s s' : Scheduler} {id j : TaskId} {l : Priority} {ops : List Operation}

/-- The level of `id`, if there is such a task. -/
def level? (s : Scheduler) (id : TaskId) : Option Priority := (s.task? id).map Task.level

/-- How many preemptions there may be before `id`, which runs at `l`, executes: one for each task
in front of it, and one if the turn is at another level. -/
def ahead (s : Scheduler) (id : TaskId) (l : Priority) : Nat :=
  (s.queue l).idxOf id + if s.level = l then 0 else 1

def Operation.preempts : Operation → Bool
  | .preempt _ => true
  | _ => false

/-- All along `ops` the task `id` runs at `l`, nobody runs above `l`, and no executing task changes
its own level. -/
structure Undisturbed (s : Scheduler) (id : TaskId) (l : Priority) (ops : List Operation) :
    Prop where
  runs : ∀ done, done <+: ops → (s.run done).runsAt id l = true
  above : ∀ done, done <+: ops → ∀ m, l < m → (s.run done).queue m = []
  keeps : ∀ done op, done ++ [op] <+: ops →
    (s.run (done ++ [op])).level? (s.run done).executing =
      (s.run done).level? (s.run done).executing

theorem Undisturbed.cons {op : Operation} (calm : s.Undisturbed id l (op :: ops)) :
    (s.perform op).value.2.Undisturbed id l ops where
  runs done first := calm.runs (op :: done) ((List.prefix_cons_inj op).mpr first)
  above done first := calm.above (op :: done) ((List.prefix_cons_inj op).mpr first)
  keeps done op' first := calm.keeps (op :: done) op' ((List.prefix_cons_inj op).mpr first)

theorem undisturbed_nil :
    s.Undisturbed id l [] ↔ s.runsAt id l = true ∧ ∀ m, l < m → s.queue m = [] := by
  constructor
  · exact fun calm => ⟨calm.runs [] List.nil_prefix, calm.above [] List.nil_prefix⟩
  · intro ⟨runs, above⟩
    constructor
    case keeps => exact fun done op first => absurd (List.prefix_nil.mp first) (by simp)
    all_goals
      intro done first
      rw [List.prefix_nil.mp first]
      assumption

theorem forall_prefix_cons {op : Operation} {P : List Operation → Prop} :
    (∀ done, done <+: op :: ops → P done) ↔ P [] ∧ ∀ done, done <+: ops → P (op :: done) := by
  constructor
  · exact fun all => ⟨all [] List.nil_prefix, fun done first =>
      all (op :: done) ((List.prefix_cons_inj op).mpr first)⟩
  · intro ⟨now, later⟩ done first
    cases done with
    | nil => exact now
    | cons op' done =>
      obtain ⟨same, rest⟩ := List.cons_prefix_cons.mp first
      exact same ▸ later done rest

theorem undisturbed_cons {op : Operation} :
    s.Undisturbed id l (op :: ops) ↔ s.Undisturbed id l [] ∧
      (s.perform op).value.2.level? s.executing = s.level? s.executing ∧
      (s.perform op).value.2.Undisturbed id l ops := by
  constructor
  · intro calm
    have now : s.Undisturbed id l [] :=
      undisturbed_nil.mpr ⟨calm.runs [] List.nil_prefix, calm.above [] List.nil_prefix⟩
    exact ⟨now, calm.keeps [] op (List.prefix_append [op] ops), calm.cons⟩
  · intro ⟨now, keeps, later⟩
    constructor
    case runs => exact forall_prefix_cons.mpr ⟨now.runs [] List.nil_prefix, later.runs⟩
    case above => exact forall_prefix_cons.mpr ⟨now.above [] List.nil_prefix, later.above⟩
    case keeps =>
      intro done op' first
      cases done with
      | nil =>
        obtain ⟨rfl, -⟩ := List.cons_prefix_cons.mp first
        exact keeps
      | cons op'' done =>
        obtain ⟨rfl, rest⟩ := List.cons_prefix_cons.mp first
        exact later.keeps done op' rest

instance decidableUndisturbed (s : Scheduler) (id : TaskId) (l : Priority) :
    (ops : List Operation) → Decidable (s.Undisturbed id l ops)
  | [] => decidable_of_iff' _ undisturbed_nil
  | op :: ops =>
    have : Decidable (s.Undisturbed id l []) := decidable_of_iff' _ undisturbed_nil
    have := decidableUndisturbed (s.perform op).value.2 id l ops
    decidable_of_iff' _ undisturbed_cons

/-! ## Places in a queue -/

theorem idxOf_cons_of_ne {x : TaskId} {q : List TaskId} (other : x ≠ id) :
    (x :: q).idxOf id = q.idxOf id + 1 := by
  rw [List.idxOf_cons, beq_eq_false_iff_ne.mpr other]
  rfl

theorem idxOf_append_of_mem {q : List TaskId} (here : id ∈ q) (later : List TaskId) :
    (q ++ later).idxOf id = q.idxOf id := by
  rw [List.idxOf_append, if_pos here]

/-- Nobody falls back when somebody else leaves. -/
theorem idxOf_filter_le {q : List TaskId} (other : id ≠ j) :
    (q.filter (· != j)).idxOf id ≤ q.idxOf id := by
  induction q with
  | nil => exact Nat.le_refl _
  | cons x q ih =>
    by_cases leaves : x = j
    · subst leaves
      rw [idxOf_cons_of_ne (Ne.symm other), List.filter_cons_of_neg (by simp)]
      exact Nat.le_succ_of_le ih
    · rw [head_filter leaves]
      by_cases first : x = id
      · rw [first, List.idxOf_cons_self]
        exact Nat.zero_le _
      · rw [idxOf_cons_of_ne first, idxOf_cons_of_ne first]
        exact Nat.succ_le_succ ih

theorem idxOf_le_of_getElem? {q : List TaskId} {k : Nat} (place : q[k]? = some id) :
    q.idxOf id ≤ k := by
  induction q generalizing k with
  | nil => cases place
  | cons x q ih =>
    by_cases first : x = id
    · rw [first, List.idxOf_cons_self]
      exact Nat.zero_le _
    · rw [idxOf_cons_of_ne first]
      cases k with
      | zero => exact absurd (Option.some.inj place) first
      | succ k => exact Nat.succ_le_succ (ih place)

/-! ## While the turn stays -/

theorem ahead_le (place : (s'.queue l).idxOf id ≤ (s.queue l).idxOf id)
    (level : s'.level = s.level) : s'.ahead id l ≤ s.ahead id l := by
  rw [ahead, ahead, level]
  exact Nat.add_le_add_right place _

theorem ahead_modify (s : Scheduler) (j : TaskId) (g : Task → Task) :
    (s.modify j g).ahead id l = s.ahead id l := by
  rw [ahead, ahead, queue_modify, level_modify]

theorem Invariant.mem_of_runsAt (inv : s.Invariant) (runs : s.runsAt id l = true) :
    id ∈ s.queue l :=
  inv.mem_iff.mpr (runsAt_eq_true.mp runs)

theorem ahead_woken (here : id ∈ s.queue l) (j : TaskId) (m : Priority) :
    (s.woken j m).ahead id l ≤ s.ahead id l := by
  apply ahead_le
  case level => exact level_woken ..
  case place =>
    rw [queue_woken]
    split
    · exact Nat.le_of_eq (idxOf_append_of_mem here _)
    · exact Nat.le_refl _

theorem ahead_requeued (here : id ∈ s.queue l) (other : id ≠ j) (old m : Priority) :
    (s.requeued j old m).ahead id l ≤ s.ahead id l := by
  have stays : id ∈ (s.queue l).filter (· != j) :=
    List.mem_filter.mpr ⟨here, by simpa using other⟩
  apply ahead_le
  case level => exact level_requeued ..
  case place =>
    rw [queue_requeued]
    split
    · rw [idxOf_append_of_mem stays]
      exact idxOf_filter_le other
    · exact Nat.le_of_eq (idxOf_append_of_mem here _)

theorem ahead_remove (other : id ≠ j) (m : Priority) :
    (s.remove j m).ahead id l ≤ s.ahead id l := by
  apply ahead_le
  case level => rfl
  case place =>
    rw [queue_remove]
    split
    · exact idxOf_filter_le other
    · exact Nat.le_refl _

theorem ahead_wakeAt (inv : s.Invariant) (runs : s.runsAt id l = true) (j : TaskId)
    (target : Option Priority) (runs' : (s.wakeAt j target).value.2.runsAt id l = true)
    (keeps : (s.wakeAt j target).value.2.level? s.executing = s.level? s.executing) :
    (s.wakeAt j target).value.2.ahead id l ≤ s.ahead id l := by
  have here := inv.mem_of_runsAt runs
  revert runs' keeps
  apply wakeAt_cases (P := fun r => r.2.runsAt id l = true →
    r.2.level? s.executing = s.level? s.executing → r.2.ahead id l ≤ s.ahead id l)
  case unknown => exact fun _ _ _ => Nat.le_refl _
  case steady => exact fun _ _ _ _ _ _ => Nat.le_refl _
  case bare => exact fun _ _ _ _ _ _ => Nat.le_refl _
  case sleeping => exact fun _ _ _ _ _ _ => ahead_woken here j _
  case queued =>
    intro t m known _ _ moves _ runs' _
    refine ahead_requeued here ?_ t.level m
    rintro rfl
    -- had `id` itself been moved, it would not run at `l` both before and after
    rw [runsAt_of_task known] at runs
    rw [runsAt_of_task (t := { t with level := m }) (by simp [known])] at runs'
    simp only [Bool.and_eq_true, beq_iff_eq] at runs runs'
    exact absurd (runs'.2.trans runs.2.symm) moves
  case head =>
    intro t m known _ _ moves first _ keeps
    rw [executing_of_isHead first, level?, level?, task?_carried, if_pos rfl, known] at keeps
    exact absurd (Option.some.inj keeps) moves

/-! ## When the turn moves on -/

/-- The turn is at the level of a task above which nobody runs. -/
theorem OnTop.level_eq (top : s.OnTop) (here : id ∈ s.queue l)
    (above : ∀ m, l < m → s.queue m = []) : s.level = l := by
  apply Fin.le_antisymm <;> apply Fin.not_lt.mp
  · intro higher
    have head := top.head
    rw [above s.level higher] at head
    cases head
  · intro lower
    rw [top.above l lower] at here
    cases here

theorem executing_of_ahead (here : id ∈ s.queue l) (none : s.ahead id l = 0) :
    s.executing = id := by
  have level : s.level = l := by
    by_cases same : s.level = l
    · exact same
    · rw [ahead, if_neg same] at none
      cases none
  have place : (s.queue l).idxOf id = 0 := Nat.eq_zero_of_add_eq_zero_right none
  cases line : s.queue l with
  | nil =>
    rw [line] at here
    cases here
  | cons x rest =>
    rw [line] at place
    have first : x = id := by
      by_cases same : x = id
      · exact same
      · rw [idxOf_cons_of_ne same] at place
        cases place
    rw [executing_of_cons (by rw [level, line]), first]

/-- Whenever the turn moves on from another task, one preemption less is ahead. -/
theorem ahead_rotate {sleeps : Bool} (line : ∃ rest, s.queue s.level = s.executing :: rest)
    (here : id ∈ s.queue l) (other : s.executing ≠ id) (top : (s.rotate sleeps).2.OnTop)
    (above : ∀ m, l < m → (s.rotate sleeps).2.queue m = []) :
    (s.rotate sleeps).2.ahead id l < s.ahead id l := by
  obtain ⟨rest, line⟩ := line
  by_cases level : s.level = l
  · subst level
    rw [line] at here
    have behind : id ∈ rest := (List.mem_cons.mp here).resolve_left (Ne.symm other)
    have left : (s.rotate sleeps).2.queue s.level =
        rest ++ if sleeps then [] else [s.executing] := by
      rw [queue_rotate, if_pos rfl, leftover, line, List.tail_cons]
      cases sleeps <;> simp
    have still : id ∈ (s.rotate sleeps).2.queue s.level := by
      rw [left]
      exact List.mem_append_left _ behind
    rw [ahead, ahead, left, idxOf_append_of_mem behind, if_pos (top.level_eq still above),
      if_pos rfl, line, idxOf_cons_of_ne other]
    exact Nat.lt_succ_self _
  · have same : (s.rotate sleeps).2.queue l = s.queue l := by
      rw [queue_rotate, if_neg (Ne.symm level)]
    have still : id ∈ (s.rotate sleeps).2.queue l := same ▸ here
    rw [ahead, ahead, same, if_pos (top.level_eq still above), if_neg level]
    exact Nat.lt_succ_self _

/-! ## Operations -/

theorem ne_of_stopped {t : Task} (stopped : s.task? j = some { t with running := false })
    (runs : s.runsAt id l = true) : id ≠ j := by
  rintro rfl
  rw [runsAt_of_task stopped] at runs
  cases runs

theorem ahead_sleep (inv : s.Invariant) (ranked : s.Ranked) (runs : s.runsAt id l = true)
    (j : TaskId) (runs' : (s.sleep j).value.2.runsAt id l = true)
    (above : ∀ m, l < m → (s.sleep j).value.2.queue m = []) :
    (s.sleep j).value.2.ahead id l ≤ s.ahead id l := by
  have here := inv.mem_of_runsAt runs
  revert runs' above
  apply sleep_cases (P := fun r => r.2.runsAt id l = true → (∀ m, l < m → r.2.queue m = []) →
    r.2.ahead id l ≤ s.ahead id l)
  case unknown => exact fun _ _ _ => Nat.le_refl _
  case stays => exact fun _ _ _ _ _ => Nat.le_refl _
  case head =>
    intro t known running works first runs' above
    have turn := executing_of_isHead first
    rw [value_yield] at runs' above ⊢
    have awake : id ≠ j := ne_of_stopped (t := t) (by simp [known]) runs'
    have top := onTop_retire inv ranked known running works first
    have fewer : ((s.modify j fun t => { t with running := false }).rotate true).2.ahead id l <
        (s.modify j fun t => { t with running := false }).ahead id l := ahead_rotate
      (by simpa [turn] using isHead_iff.mp first) (by simpa using here)
      (by simpa [turn] using Ne.symm awake) top above
    rw [ahead_modify] at fewer
    exact Nat.le_of_lt fewer
  case queued =>
    intro t known _ _ _ runs' _
    have awake : id ≠ j := ne_of_stopped (t := t) (by simp [remove, known]) runs'
    exact Nat.le_trans (ahead_remove awake t.level) (Nat.le_of_eq (ahead_modify s j _))

theorem ahead_wakeup (inv : s.Invariant) (runs : s.runsAt id l = true) (j : TaskId)
    (level : Option Nat) (runs' : (s.wakeup j level).value.2.runsAt id l = true)
    (keeps : (s.wakeup j level).value.2.level? s.executing = s.level? s.executing) :
    (s.wakeup j level).value.2.ahead id l ≤ s.ahead id l := by
  revert runs' keeps
  apply wakeup_cases (P := fun r => r.2.runsAt id l = true →
    r.2.level? s.executing = s.level? s.executing → r.2.ahead id l ≤ s.ahead id l)
  case invalid => exact fun _ _ _ _ _ => Nat.le_refl _
  case valid => exact fun target _ => ahead_wakeAt inv runs j target

theorem level?_modify {g : Task → Task} (same : ∀ t, (g t).level = t.level) :
    (s.modify j g).level? id = s.level? id := by
  simp only [level?, task?_modify]
  split
  · rw [Option.map_map]
    exact congrArg (fun f => (s.task? id).map f) (funext same)
  · rfl

theorem runsAt_modify {g : Task → Task} (level : ∀ t, (g t).level = t.level)
    (running : ∀ t, (g t).running = t.running) :
    (s.modify j g).runsAt id l = s.runsAt id l := by
  simp only [runsAt, task?_modify]
  split
  · simp [Option.any_map, level, running]
  · rfl

theorem ahead_send (inv : s.Invariant) (runs : s.runsAt id l = true) (j : TaskId)
    (message : Message) (runs' : (s.send j message).value.2.runsAt id l = true)
    (keeps : (s.send j message).value.2.level? s.executing = s.level? s.executing) :
    (s.send j message).value.2.ahead id l ≤ s.ahead id l := by
  have posted : (s.modify j fun t => { t with mailbox := t.mailbox ++ [message] }).Invariant :=
    invariant_modify inv j (fun _ => rfl) (fun _ => rfl) (fun _ primed => primed)
  revert runs' keeps
  apply send_cases (P := fun r => r.2.runsAt id l = true →
    r.2.level? s.executing = s.level? s.executing → r.2.ahead id l ≤ s.ahead id l)
  case unknown => exact fun _ _ _ => Nat.le_refl _
  case bare => exact fun _ _ _ _ _ => Nat.le_of_eq (ahead_modify s j _)
  case primed =>
    intro t _ _ runs' keeps
    rw [← ahead_modify s j fun t => { t with mailbox := t.mailbox ++ [message] }]
    apply ahead_wakeAt posted _ j none runs'
    · rw [executing_modify, keeps, level?_modify]
      exact fun _ => rfl
    · rw [← runs]
      exact runsAt_modify (fun _ => rfl) fun _ => rfl

theorem ahead_preempt (inv : s.Invariant) (ranked : s.Ranked) (runs : s.runsAt id l = true)
    (other : s.executing ≠ id) (saved : Context)
    (above : ∀ m, l < m → (s.preempt saved).value.2.queue m = []) :
    (s.preempt saved).value.2.ahead id l < s.ahead id l := by
  have top := onTop_preempt inv ranked saved
  rw [preempt, value_yield] at above top ⊢
  rw [← ahead_modify s s.executing fun t => { t with context := saved }]
  apply ahead_rotate _ _ _ top above
  · simpa using inv.exists_head
  · simpa using inv.mem_of_runsAt runs
  · simpa using other

/-- Until its turn comes, nothing puts a task back, and each preemption brings it on. -/
theorem ahead_perform (inv : s.Invariant) (ranked : s.Ranked) {op : Operation}
    (calm : s.Undisturbed id l (op :: ops)) (other : s.executing ≠ id) :
    (s.perform op).value.2.ahead id l + (if op.preempts then 1 else 0) ≤ s.ahead id l := by
  have runs := calm.runs [] (List.nil_prefix)
  have first : [op] <+: op :: ops := List.prefix_append [op] ops
  have runs' := calm.runs [op] first
  have above := calm.above [op] first
  have keeps := calm.keeps [] op first
  cases op with
  | create => exact Nat.le_refl _
  | prime j entry arg cr3 areas =>
    exact Nat.le_of_eq (s.left_prime j entry arg cr3 areas ▸ ahead_modify s j _)
  | wakeup j level => exact ahead_wakeup inv runs j level runs' keeps
  | sleep j => exact ahead_sleep inv ranked runs j runs' above
  | send j message => exact ahead_send inv runs j message runs' keeps
  | receive j => exact Nat.le_of_eq (s.left_receive j ▸ ahead_modify s j _)
  | setWindow j window => exact Nat.le_of_eq (s.left_setWindow j window ▸ ahead_modify s j _)
  | preempt saved => exact ahead_preempt inv ranked runs other saved above

/-! ## The turn comes round -/

/-- Before the last of the operations that it takes, fewer preemptions are done than were ahead. -/
theorem exists_turn (reach : Reachable s) (calm : s.Undisturbed id l ops)
    (enough : s.ahead id l ≤ ops.countP Operation.preempts) :
    ∃ done, done <+: ops ∧ (s.run done).executing = id ∧
      (done = [] ∨ done.dropLast.countP Operation.preempts < s.ahead id l) := by
  have here := (reachable_invariant reach).mem_of_runsAt (calm.runs [] List.nil_prefix)
  induction ops generalizing s with
  | nil =>
    have turn : s.executing = id := executing_of_ahead here (Nat.le_zero.mp enough)
    exact ⟨[], List.nil_prefix, turn, .inl rfl⟩
  | cons op ops ih =>
    by_cases turn : s.executing = id
    · exact ⟨[], List.nil_prefix, turn, .inl rfl⟩
    · have fewer := ahead_perform (reachable_invariant reach) (reachable_ranked reach) calm turn
      have waits : 0 < s.ahead id l :=
        Nat.pos_of_ne_zero fun none => turn (executing_of_ahead here none)
      have reach' : Reachable (s.perform op).value.2 := .next op reach
      have here' := (reachable_invariant reach').mem_of_runsAt (calm.cons.runs [] List.nil_prefix)
      rw [List.countP_cons] at enough
      obtain ⟨done, first, later, bound⟩ := ih reach' calm.cons (by omega) here'
      refine ⟨op :: done, (List.prefix_cons_inj op).mpr first, later, .inr ?_⟩
      cases done with
      | nil => exact waits
      | cons op' done =>
        have bound := bound.resolve_left (List.cons_ne_nil _ _)
        rw [List.dropLast_cons_cons, List.countP_cons]
        omega

/-- **Bounded waiting.** A task at place `k` of the queue at `l` executes at some moment no later
than after `k + 1` preemptions, whatever else is done meanwhile, provided that it stays runnable
at `l`, that nobody runs above `l`, and that no executing task changes its own level. -/
theorem turn_comes_round {k : Nat} (reach : Reachable s) (place : (s.queue l)[k]? = some id)
    (calm : s.Undisturbed id l ops) (enough : k < ops.countP Operation.preempts) :
    ∃ done, done <+: ops ∧ (s.run done).executing = id ∧
      done.dropLast.countP Operation.preempts ≤ k := by
  have few : s.ahead id l ≤ k + 1 := by
    have near := idxOf_le_of_getElem? place
    unfold ahead
    split <;> omega
  obtain ⟨done, first, turn, bound⟩ := exists_turn reach calm (Nat.le_trans few enough)
  refine ⟨done, first, turn, ?_⟩
  cases bound with
  | inl none =>
    subst none
    exact Nat.zero_le _
  | inr fewer => exact Nat.le_of_lt_succ (Nat.lt_of_lt_of_le fewer few)

/-- The main task has moved below the level at which three others wait, so that the turn must first
come up to them. While the last of them waits, the first goes to sleep and a new one comes in. -/
theorem turn_comes_round_behind_two :
    let s := (new 0 0).value.run [.create, .create, .create, .prime 3 0x1000 5 0,
      .prime 4 0x1000 5 0, .prime 5 0x1000 5 0, .wakeup 1 (some 2), .wakeup 3 (some 4),
      .wakeup 4 (some 4), .wakeup 5 (some 4)]
    let ops : List Operation := [.preempt .zero, .create, .prime 6 0x1000 5 0, .sleep 3,
      .send 6 .interruptXhci, .wakeup 6 (some 4), .preempt .zero, .preempt .zero]
    Reachable s ∧ s.level = 2 ∧ s.changePending = true ∧ (s.queue 4)[2]? = some 5 ∧
      s.Undisturbed 5 4 ops ∧
      ∃ done, done <+: ops ∧ (s.run done).executing = 5 ∧
        done.dropLast.countP Operation.preempts ≤ 2 := by
  intro s ops
  have reach : Reachable s := .run _ (.start 0 0 _)
  have place : (s.queue 4)[2]? = some 5 := by decide
  have calm : s.Undisturbed 5 4 ops := by decide
  exact ⟨reach, by decide, by decide, place, calm,
    turn_comes_round reach place calm (by decide)⟩

end Nucleus.Scheduler
