import Nucleus.Proofs.Task.Views

/-!
# The scheduler's invariant

A task sits in the queue of its own level, once, while it runs, and nowhere otherwise; the idle
task always runs; and somebody always has the turn.

* `invariant_of_others`: a change of one task's place keeps the invariant if the task is queued
  where it runs.
* `invariant_perform`: every operation keeps the invariant.
* `reachable_invariant`: it holds of every scheduler that can be reached.
-/

namespace Nucleus.Scheduler
open Platform
variable {s : Scheduler}

/-- Whether `id` runs at level `l`. -/
def runsAt (s : Scheduler) (id : TaskId) (l : Priority) : Bool :=
  (s.task? id).any fun t => t.running && t.level == l

structure Invariant (s : Scheduler) : Prop where
  /-- A task is queued once where it runs, and nowhere else. -/
  seats : ∀ id l, (s.queue l).count id = (s.runsAt id l).toNat
  idle : ∃ t, s.task? s.idle = some t ∧ t.running = true
  head : s.queue s.level ≠ []
  contexts : ∀ id t, s.task? id = some t → t.running = true → t.hasContext = true

theorem runsAt_eq_true {id : TaskId} {l : Priority} :
    s.runsAt id l = true ↔ ∃ t, s.task? id = some t ∧ t.running = true ∧ t.level = l := by
  simp [runsAt, Option.any_eq_true]

theorem runsAt_of_task {id : TaskId} {t : Task} (h : s.task? id = some t) (l : Priority) :
    s.runsAt id l = (t.running && t.level == l) := by
  rw [runsAt, h, Option.any_some]

theorem runsAt_congr {s' : Scheduler} {id : TaskId} (h : s'.task? id = s.task? id)
    (l : Priority) : s'.runsAt id l = s.runsAt id l := by
  rw [runsAt, runsAt, h]

theorem Invariant.mem_iff (inv : s.Invariant) {id : TaskId} {l : Priority} :
    id ∈ s.queue l ↔ ∃ t, s.task? id = some t ∧ t.running = true ∧ t.level = l := by
  rw [← runsAt_eq_true, ← List.count_pos_iff, inv.seats]
  cases s.runsAt id l <;> simp

theorem Invariant.exists_head (inv : s.Invariant) :
    ∃ rest, s.queue s.level = s.executing :: rest := by
  cases queued : s.queue s.level with
  | nil => exact absurd queued inv.head
  | cons id rest => exact ⟨rest, by rw [executing_of_cons queued]⟩

/-- The executing task runs, at the current level. -/
theorem Invariant.executing_runs (inv : s.Invariant) :
    ∃ t, s.task? s.executing = some t ∧ t.running = true ∧ t.level = s.level := by
  obtain ⟨rest, queued⟩ := inv.exists_head
  exact inv.mem_iff.mp (by rw [queued]; exact List.mem_cons_self)

theorem Invariant.level_of_head (inv : s.Invariant) {id : TaskId} {t : Task}
    (known : s.task? id = some t) {rest : List TaskId} (line : s.queue s.level = id :: rest) :
    t.level = s.level := by
  obtain ⟨u, same, -, level⟩ := inv.mem_iff.mp (line ▸ List.mem_cons_self)
  rw [known] at same
  cases same
  exact level

theorem count_filter_ne (q : List TaskId) (id j : TaskId) :
    (q.filter (· != id)).count j = if j = id then 0 else q.count j := by
  by_cases same : j = id
  · simp [same, List.count_eq_zero]
  · rw [List.count_filter (by simpa using same), if_neg same]

/-! ## Each change keeps the invariant -/

/-- Only a change of a task's level or of whether it runs asks for a change of the queues. -/
theorem invariant_modify (inv : s.Invariant) (id : TaskId) {g : Task → Task}
    (level : ∀ t, (g t).level = t.level) (running : ∀ t, (g t).running = t.running)
    (context : ∀ t, t.hasContext = true → (g t).hasContext = true) :
    (s.modify id g).Invariant where
  seats j l := by
    have same : (s.modify id g).runsAt j l = s.runsAt j l := by
      simp only [runsAt, task?_modify]
      split
      · simp [Option.any_map, level, running]
      · rfl
    rw [queue_modify, same, inv.seats]
  idle := by
    obtain ⟨t, known, runs⟩ := inv.idle
    by_cases here : s.idle = id
    · exact ⟨g t, by rw [idle_modify, task?_modify, if_pos here, known]; rfl, by rw [running, runs]⟩
    · exact ⟨t, by simp [here, known], runs⟩
  head := by simpa using inv.head
  contexts j t known runs := by
    rw [task?_modify] at known
    split at known
    · obtain ⟨u, was, rfl⟩ := Option.map_eq_some_iff.mp known
      exact context u (inv.contexts j u was (by rw [← running, runs]))
    · exact inv.contexts j t known runs

/-- A change of one task's place keeps the invariant if the task is queued where it runs. -/
theorem invariant_of_others (inv : s.Invariant) {s' : Scheduler} {id : TaskId} {t : Task}
    (own : s'.task? id = some t) (others : ∀ j, j ≠ id → s'.task? j = s.task? j)
    (counts : ∀ j, j ≠ id → ∀ l, (s'.queue l).count j = (s.queue l).count j)
    (seat : ∀ l, (s'.queue l).count id = (t.running && t.level == l).toNat)
    (idle : s'.idle = s.idle) (idleRuns : s.idle = id → t.running = true)
    (head : s'.queue s'.level ≠ []) (context : t.running = true → t.hasContext = true) :
    s'.Invariant where
  seats j l := by
    by_cases here : j = id
    · rw [here, seat, runsAt_of_task own]
    · rw [counts j here, inv.seats, runsAt_congr (others j here)]
  idle := by
    rw [idle]
    by_cases here : s.idle = id
    · exact ⟨t, here ▸ own, idleRuns here⟩
    · rw [others _ here]
      exact inv.idle
  head := head
  contexts j u known runs := by
    by_cases here : j = id
    · rw [here, own] at known
      cases known
      exact context runs
    · exact inv.contexts j u (others j here ▸ known) runs

theorem count_of_task (inv : s.Invariant) {id : TaskId} {t : Task} (known : s.task? id = some t)
    (l : Priority) : (s.queue l).count id = (t.running && t.level == l).toNat := by
  rw [inv.seats, runsAt_of_task known]

theorem invariant_create (inv : s.Invariant) : s.create.value.2.Invariant := by
  have own : s.create.value.2.task? (s.tasks.size + 1) = some .fresh := by
    simp [create, task?_push]
  refine invariant_of_others inv own ?others (fun _ _ _ => rfl) ?seat rfl ?idleRuns inv.head
    ?context
  case others =>
    intro j fresh
    simp [create, task?_push, fresh]
  case seat =>
    intro l
    have unknown : s.runsAt (s.tasks.size + 1) l = false := by simp [runsAt, task?_size]
    exact (inv.seats _ l).trans (by rw [unknown]; rfl)
  case idleRuns =>
    intro here
    obtain ⟨t, known, -⟩ := inv.idle
    rw [here, task?_size] at known
    cases known
  case context =>
    intro runs
    cases runs

theorem invariant_woken (inv : s.Invariant) {id : TaskId} {t : Task}
    (known : s.task? id = some t) (sleeps : t.running = false) (primed : t.hasContext = true)
    (l : Priority) : (s.woken id l).Invariant := by
  have own : (s.woken id l).task? id = some { t with level := l, running := true } := by
    simp [known]
  refine invariant_of_others inv own ?others ?counts ?seat (idle_woken ..) (fun _ => rfl) ?head
    (fun _ => primed)
  case others =>
    intro j other
    simp [other]
  case counts =>
    intro j other m
    rw [queue_woken]
    split <;> simp [Ne.symm other]
  case seat =>
    intro m
    have absent := count_of_task inv known m
    rw [sleeps, Bool.false_and] at absent
    rw [queue_woken]
    by_cases here : m = l
    · subst here
      simp [absent]
    · have elsewhere : (l == m) = false := by simpa using Ne.symm here
      simp [here, elsewhere, absent]
  case head =>
    rw [level_woken, queue_woken]
    split
    · simp
    · exact inv.head

theorem invariant_requeued (inv : s.Invariant) {id : TaskId} {t : Task}
    (known : s.task? id = some t) (runs : t.running = true) (l : Priority)
    (queued : s.isHead id = false) : (s.requeued id t.level l).Invariant := by
  have own : (s.requeued id t.level l).task? id = some { t with level := l } := by
    simp [known]
  refine invariant_of_others inv own ?others ?counts ?seat (idle_requeued ..) (fun _ => runs) ?head
    (fun _ => inv.contexts id t known runs)
  case others =>
    intro j other
    simp [other]
  case counts =>
    intro j other m
    have added : (if m = l then [id] else []).count j = 0 := by split <;> simp [Ne.symm other]
    rw [queue_requeued, List.count_append, added]
    split
    · rw [count_filter_ne, if_neg other, Nat.add_zero]
    · rfl
  case seat =>
    intro m
    have before := count_of_task inv known m
    have added : (if m = l then [id] else []).count id = (l == m).toNat := by
      by_cases here : m = l
      · simp [here]
      · have elsewhere : (l == m) = false := by simpa using Ne.symm here
        simp [here, elsewhere]
    rw [queue_requeued, List.count_append, added, runs, Bool.true_and]
    by_cases old : m = t.level
    · rw [if_pos old, count_filter_ne, if_pos rfl, Nat.zero_add]
    · have elsewhere : (t.level == m) = false := by simpa using Ne.symm old
      rw [if_neg old, before, elsewhere, Bool.and_false, Bool.toNat_false, Nat.zero_add]
  case head =>
    obtain ⟨rest, line⟩ := inv.exists_head
    obtain ⟨rest', line'⟩ := s.head_requeued _ _ line (head_ne_of_isHead line queued)
    rw [level_requeued, line']
    exact List.cons_ne_nil _ _

theorem invariant_carried (inv : s.Invariant) {id : TaskId} {t : Task}
    (known : s.task? id = some t) (runs : t.running = true) {l : Priority} (moves : l ≠ t.level)
    (first : s.isHead id = true) : (s.carried id l).Invariant := by
  obtain ⟨rest, line⟩ := isHead_iff.mp first
  have level := inv.level_of_head known line
  rw [level] at moves
  have own : (s.carried id l).task? id = some { t with level := l } := by
    simp [known]
  refine invariant_of_others inv own ?others ?counts ?seat (idle_carried ..) (fun _ => runs) ?head
    (fun _ => inv.contexts id t known runs)
  case others =>
    intro j other
    simp [other]
  case counts =>
    intro j other m
    rw [queue_carried s moves, line, List.tail_cons]
    split
    · next here => rw [here, List.count_cons_of_ne (Ne.symm other)]
    · split
      · next here => rw [here, line, List.count_cons_of_ne (Ne.symm other)]
      · rfl
  case seat =>
    intro m
    have before := count_of_task inv known m
    rw [runs, Bool.true_and, level] at before
    rw [runs, Bool.true_and, queue_carried s moves, line, List.tail_cons]
    by_cases here : m = l
    · have absent : (s.level == m) = false := by simpa [here] using Ne.symm moves
      rw [absent] at before
      rw [if_pos here, ← here, List.count_cons_self, before]
      simp
    · have elsewhere : (l == m) = false := by simpa using Ne.symm here
      rw [if_neg here, elsewhere]
      by_cases old : m = s.level
      · subst old
        rw [line, List.count_cons_self] at before
        simpa using before
      · have absent : (s.level == m) = false := by simpa using Ne.symm old
        rw [if_neg old, before, absent]
  case head =>
    rw [level_carried, queue_carried s moves, if_pos rfl]
    exact List.cons_ne_nil _ _

/-- A task that does not execute goes to sleep. -/
theorem invariant_remove (inv : s.Invariant) {id : TaskId} {t : Task}
    (known : s.task? id = some t) (works : id ≠ s.idle) (queued : s.isHead id = false) :
    ((s.modify id fun t => { t with running := false }).remove id t.level).Invariant := by
  have own : ((s.modify id fun t => { t with running := false }).remove id t.level).task? id =
      some { t with running := false } := by
    simp [remove, known]
  refine invariant_of_others inv own ?others ?counts ?seat ?idle
    (fun idles => absurd idles.symm works) ?head ?context
  case others =>
    intro j other
    simp [remove, other]
  case counts =>
    intro j other m
    rw [queue_remove, queue_modify]
    split
    · rw [count_filter_ne, if_neg other]
    · rfl
  case seat =>
    intro m
    have before := count_of_task inv known m
    rw [queue_remove, queue_modify]
    split
    · rw [count_filter_ne, if_pos rfl]
      rfl
    · next old =>
      have elsewhere : (t.level == m) = false := by simpa using Ne.symm old
      rw [before, elsewhere, Bool.and_false, Bool.false_and]
  case idle => simp [remove]
  case head =>
    obtain ⟨rest, line⟩ := inv.exists_head
    have line' : (s.modify id fun t => { t with running := false }).queue
        (s.modify id fun t => { t with running := false }).level = s.executing :: rest := by
      rw [queue_modify, level_modify, line]
    obtain ⟨rest', left⟩ := head_remove _ t.level line' (head_ne_of_isHead line queued)
    have level : ((s.modify id fun t => { t with running := false }).remove id t.level).level =
        (s.modify id fun t => { t with running := false }).level := rfl
    rw [level, left]
    exact List.cons_ne_nil _ _
  case context =>
    intro runs
    cases runs

/-- The executing task goes to the tail of its queue. -/
theorem invariant_rotate (inv : s.Invariant) : (s.rotate false).2.Invariant := by
  obtain ⟨rest, line⟩ := inv.exists_head
  obtain ⟨t, known, runs, -⟩ := inv.executing_runs
  have counts (j : TaskId) (m : Priority) :
      ((s.rotate false).2.queue m).count j = (s.queue m).count j := by
    rw [queue_rotate]
    split
    · next here =>
      rw [here, leftover, line]
      simp [List.count_append, List.count_cons]
    · rfl
  refine invariant_of_others inv ((task?_rotate ..).trans known) (fun j _ => task?_rotate ..)
    (fun j _ => counts j) ?seat (idle_rotate ..) (fun _ => runs) ?head (inv.contexts _ t known)
  case seat =>
    intro m
    rw [counts, count_of_task inv known]
  case head =>
    refine head_rotate (l := s.level) ?_
    rw [queue_rotate, if_pos rfl, leftover]
    simp

/-- The executing task goes to sleep, and the turn goes on. -/
theorem invariant_retire (inv : s.Invariant) {id : TaskId} {t : Task}
    (known : s.task? id = some t) (runs : t.running = true) (works : id ≠ s.idle)
    (first : s.isHead id = true) :
    ((s.modify id fun t => { t with running := false }).rotate true).2.Invariant := by
  obtain ⟨rest, line⟩ := isHead_iff.mp first
  have left (m : Priority) :
      ((s.modify id fun t => { t with running := false }).rotate true).2.queue m =
        if m = s.level then rest else s.queue m := by
    rw [queue_rotate]
    simp [leftover, line]
  have own : ((s.modify id fun t => { t with running := false }).rotate true).2.task? id =
      some { t with running := false } := by
    simp [known]
  refine invariant_of_others inv own ?others ?counts ?seat ?idle
    (fun idles => absurd idles.symm works) ?head ?context
  case others =>
    intro j other
    simp [other]
  case counts =>
    intro j other m
    rw [left]
    split
    · next here => rw [here, line, List.count_cons_of_ne (Ne.symm other)]
    · rfl
  case seat =>
    intro m
    have before := count_of_task inv known m
    rw [runs, Bool.true_and, inv.level_of_head known line] at before
    rw [left, Bool.false_and]
    split
    · next here =>
      subst here
      rw [line, List.count_cons_self] at before
      simpa using before
    · next old =>
      have elsewhere : (s.level == m) = false := by simpa using Ne.symm old
      rw [before, elsewhere]
  case idle => simp
  case head =>
    -- the idle task is still queued somewhere
    obtain ⟨u, idles, idleRuns⟩ := inv.idle
    have queued : s.idle ∈ s.queue u.level := inv.mem_iff.mpr ⟨u, idles, idleRuns, rfl⟩
    refine head_rotate (l := u.level) (List.ne_nil_of_mem (a := s.idle) ?_)
    rw [left]
    split
    · next here =>
      rw [here, line] at queued
      exact (List.mem_cons.mp queued).resolve_left (Ne.symm works)
    · exact queued
  case context =>
    intro runs
    cases runs

/-! ## Every operation keeps the invariant -/

theorem invariant_wakeAt (inv : s.Invariant) (id : TaskId) (target : Option Priority) :
    (s.wakeAt id target).value.2.Invariant := by
  refine wakeAt_cases (P := fun r => r.2.Invariant) (fun _ => inv) (fun _ _ _ _ => inv)
    ?queued ?head (fun _ _ _ _ => inv) ?sleeping
  case queued =>
    intro t l known runs _ _ queued
    exact invariant_requeued inv known runs l queued
  case head =>
    intro t l known runs _ moves first
    exact invariant_carried inv known runs moves first
  case sleeping =>
    intro t known sleeps primed
    exact invariant_woken inv known sleeps primed _

theorem invariant_wakeup (inv : s.Invariant) (id : TaskId) (level : Option Nat) :
    (s.wakeup id level).value.2.Invariant :=
  wakeup_cases (P := fun r => r.2.Invariant) (fun _ _ _ => inv)
    (fun target _ => invariant_wakeAt inv id target)

theorem invariant_send (inv : s.Invariant) (id : TaskId) (message : Message) :
    (s.send id message).value.2.Invariant := by
  have posted : (s.modify id fun t => { t with mailbox := t.mailbox ++ [message] }).Invariant :=
    invariant_modify inv id (fun _ => rfl) (fun _ => rfl) (fun _ primed => primed)
  exact send_cases (P := fun r => r.2.Invariant) (fun _ => inv) (fun _ _ _ => posted)
    (fun _ _ _ => invariant_wakeAt posted id none)

theorem invariant_sleep (inv : s.Invariant) (id : TaskId) :
    (s.sleep id).value.2.Invariant := by
  refine sleep_cases (P := fun r => r.2.Invariant) (fun _ => inv) (fun _ _ _ => inv) ?head ?queued
  case head =>
    intro t known runs works first
    rw [value_yield]
    exact invariant_retire inv known runs works first
  case queued =>
    intro t known _ works queued
    exact invariant_remove inv known works queued

theorem invariant_preempt (inv : s.Invariant) (saved : Context) :
    (s.preempt saved).value.2.Invariant := by
  rw [preempt, value_yield]
  exact invariant_rotate
    (invariant_modify inv s.executing (fun _ => rfl) (fun _ => rfl) (fun _ primed => primed))

theorem invariant_perform (inv : s.Invariant) (op : Operation) :
    (s.perform op).value.2.Invariant := by
  cases op with
  | create => exact invariant_create inv
  | prime id entry arg cr3 areas =>
    exact s.left_prime id entry arg cr3 areas ▸
      invariant_modify inv id (fun _ => rfl) (fun _ => rfl) (fun _ _ => rfl)
  | wakeup id level => exact invariant_wakeup inv id level
  | sleep id => exact invariant_sleep inv id
  | send id message => exact invariant_send inv id message
  | receive id =>
    exact s.left_receive id ▸
      invariant_modify inv id (fun _ => rfl) (fun _ => rfl) (fun _ primed => primed)
  | setWindow id window =>
    exact s.left_setWindow id window ▸
      invariant_modify inv id (fun _ => rfl) (fun _ => rfl) (fun _ primed => primed)
  | preempt saved => exact invariant_preempt inv saved

/-! ## Every state -/

/-- The code that ran already. -/
def mainTask : Task := ⟨7, true, true, 0, .zero, [], ⟨0, 0⟩⟩

def idleTask (entry cr3 : UInt64) (areas : Stacks) : Task :=
  ⟨0, true, true, stackBytes, (areas 2).image 2 entry 0 cr3, [], ⟨0, 0⟩⟩

theorem task?_new (idleEntry cr3 : UInt64) (areas : Stacks) (id : TaskId) :
    (new idleEntry cr3 areas).value.task? id =
      if id = 1 then some mainTask
      else if id = 2 then some (idleTask idleEntry cr3 areas)
      else none := by
  match id with
  | 0 | 1 | 2 => rfl
  | n + 3 => rfl

theorem queue_new (idleEntry cr3 : UInt64) (areas : Stacks) (l : Priority) :
    (new idleEntry cr3 areas).value.queue l =
      if l = 0 then [2] else if l = 7 then [1] else [] := by
  have listed : ∀ l : Priority, (#v[[2], [], [], [], [], [], [], [1]] : Vector (List TaskId) 8)[l] =
      if l = 0 then [2] else if l = 7 then [1] else [] := by decide
  exact listed l

theorem invariant_new (idleEntry cr3 : UInt64) (areas : Stacks) :
    (new idleEntry cr3 areas).value.Invariant where
  seats id l := by
    have mainSeat : ∀ l : Priority,
        List.count 1 (if l = 0 then [2] else if l = 7 then [1] else []) =
          (true && (7 : Priority) == l).toNat := by decide
    have idleSeat : ∀ l : Priority,
        List.count 2 (if l = 0 then [2] else if l = 7 then [1] else []) =
          (true && (0 : Priority) == l).toNat := by decide
    rw [queue_new]
    by_cases main : id = 1
    · rw [main, runsAt_of_task (task?_new ..)]
      exact mainSeat l
    · by_cases idles : id = 2
      · rw [idles, runsAt_of_task (task?_new ..)]
        exact idleSeat l
      · rw [runsAt, task?_new, if_neg main, if_neg idles]
        split
        · exact List.count_eq_zero.mpr (by simpa using idles)
        · split
          · exact List.count_eq_zero.mpr (by simpa using main)
          · rfl
  idle := ⟨_, rfl, rfl⟩
  head := List.cons_ne_nil _ _
  contexts id t known _ := by
    rw [task?_new] at known
    split at known
    · cases known
      rfl
    · split at known
      · cases known
        rfl
      · cases known

theorem reachable_invariant (reach : Reachable s) : s.Invariant := by
  induction reach with
  | start idleEntry cr3 areas => exact invariant_new idleEntry cr3 areas
  | next op _ ih => exact invariant_perform ih op

/-- Operations in a row. -/
def run (s : Scheduler) (ops : List Operation) : Scheduler :=
  ops.foldl (fun s op => (s.perform op).value.2) s

theorem Reachable.run (ops : List Operation) :
    ∀ {s : Scheduler}, Reachable s → Reachable (s.run ops) := by
  induction ops with
  | nil => exact fun reach => reach
  | cons op rest ih => exact fun reach => ih (.next op reach)

end Nucleus.Scheduler
