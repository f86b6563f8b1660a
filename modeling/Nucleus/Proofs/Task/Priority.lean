import Nucleus.Proofs.Task.Invariant

/-!
# Priority

A task that comes to run above the current level may have to wait for the next switch, but not
longer: either nobody is queued above the current level, or a change of level is pending, and a
pending change is seen to whenever the turn moves on.

* `ranked_wakeAt`, `ranked_sleep`, `ranked_preempt`: no operation loses the pending change.
* `ranked_perform`, `reachable_ranked`: so nobody above the current level is forgotten.
* `onTop_rotate`: once the turn has moved on, the highest task has it.
* `highest_task_executes`: the same of every scheduler that can be reached.
-/

namespace Nucleus.Scheduler
variable {s : Scheduler}

/-- Nobody is queued above the current level, unless a change of level is pending. -/
def Ranked (s : Scheduler) : Prop := s.changePending = false → ∀ l, s.level < l → s.queue l = []

/-- The executing task is the first of those that run at the highest level, and nothing is
pending. -/
structure OnTop (s : Scheduler) : Prop where
  settled : s.changePending = false
  head : (s.queue s.level).head? = some s.executing
  occupied : ∃ id t, s.task? id = some t ∧ t.running = true ∧ t.level = s.level
  highest : ∀ id t, s.task? id = some t → t.running = true → t.level ≤ s.level
  above : ∀ l, s.level < l → s.queue l = []

theorem OnTop.of_above (inv : s.Invariant) (settled : s.changePending = false)
    (above : ∀ l, s.level < l → s.queue l = []) : s.OnTop := by
  obtain ⟨rest, line⟩ := inv.exists_head
  obtain ⟨t, known, runs, level⟩ := inv.executing_runs
  refine ⟨settled, by rw [line, List.head?_cons], ⟨_, t, known, runs, level⟩, ?highest, above⟩
  case highest =>
    intro id u known runs
    have queued : id ∈ s.queue u.level := inv.mem_iff.mpr ⟨u, known, runs, rfl⟩
    refine Fin.not_lt.mp fun higher => ?_
    rw [above u.level higher] at queued
    cases queued

/-! ## No change of level is forgotten -/

theorem Ranked.congr {s' : Scheduler} (ranked : s.Ranked) (level : s'.level = s.level)
    (pending : s'.changePending = s.changePending)
    (empties : ∀ l, s.queue l = [] → s'.queue l = []) : s'.Ranked := by
  intro settled l higher
  rw [pending] at settled
  rw [level] at higher
  exact empties l (ranked settled l higher)

theorem ranked_modify (ranked : s.Ranked) (id : TaskId) (g : Task → Task) :
    (s.modify id g).Ranked :=
  ranked.congr (level_modify ..) (changePending_modify ..) fun l empty => by
    rw [queue_modify, empty]

theorem ranked_woken (ranked : s.Ranked) (id : TaskId) (l : Priority) : (s.woken id l).Ranked := by
  intro settled m higher
  simp only [changePending_woken, Bool.or_eq_false_iff, decide_eq_false_iff_not] at settled
  rw [level_woken] at higher
  have elsewhere : m ≠ l := by
    rintro rfl
    exact settled.2 higher
  rw [queue_woken, if_neg elsewhere]
  exact ranked settled.1 m higher

theorem ranked_requeued (ranked : s.Ranked) (id : TaskId) (old l : Priority) :
    (s.requeued id old l).Ranked := by
  intro settled m higher
  simp only [changePending_requeued, Bool.or_eq_false_iff, decide_eq_false_iff_not] at settled
  rw [level_requeued] at higher
  have elsewhere : m ≠ l := by
    rintro rfl
    exact settled.2 higher
  rw [queue_requeued, if_neg elsewhere, ranked settled.1 m higher]
  simp

/-- Moving up with its turn, a task passes nobody; moving down, it leaves the change pending. -/
theorem ranked_carried (ranked : s.Ranked) (id : TaskId) {l : Priority} (away : l ≠ s.level) :
    (s.carried id l).Ranked := by
  intro settled m higher
  simp only [changePending_carried, Bool.or_eq_false_iff, decide_eq_false_iff_not] at settled
  rw [level_carried] at higher
  have past : s.level < m := Fin.lt_of_le_of_lt (Fin.not_lt.mp settled.2) higher
  rw [queue_carried s away, if_neg (Fin.ne_of_gt higher), if_neg (Fin.ne_of_gt past)]
  exact ranked settled.1 m past

theorem ranked_remove (ranked : s.Ranked) (id : TaskId) (l : Priority) :
    (s.remove id l).Ranked := by
  refine ranked.congr rfl rfl fun m empty => ?_
  rw [queue_remove, empty]
  split <;> rfl

/-- Once the turn has moved on, nobody waits above, and nothing is pending. -/
theorem above_rotate {sleeps : Bool} {l : Priority} (ranked : s.Ranked)
    (someone : (s.rotate sleeps).2.queue l ≠ []) :
    (s.rotate sleeps).2.changePending = false ∧
      ∀ m, (s.rotate sleeps).2.level < m → (s.rotate sleeps).2.queue m = [] := by
  revert someone
  refine rotate_cases (P := fun r => r.2.queue l ≠ [] →
    r.2.changePending = false ∧ ∀ m, r.2.level < m → r.2.queue m = []) ?rescans ?goesOn
  case rescans =>
    intro _ someone
    obtain ⟨top, found⟩ := exists_highest (s := s.setQueue s.level (s.leftover sleeps)) someone
    refine ⟨rfl, fun m higher => (highest?_eq_some found).2 m ?_⟩
    simpa only [found, Option.getD_some] using higher
  case goesOn =>
    intro settled _ _
    refine ⟨settled, fun m (higher : s.level < m) => ?_⟩
    rw [queue_setQueue, if_neg (Fin.ne_of_gt higher)]
    exact ranked settled m higher

theorem onTop_rotate {sleeps : Bool} (ranked : s.Ranked) (inv : (s.rotate sleeps).2.Invariant) :
    (s.rotate sleeps).2.OnTop := by
  obtain ⟨settled, above⟩ := above_rotate ranked inv.head
  exact .of_above inv settled above

/-! ## Every operation -/

theorem OnTop.ranked (top : s.OnTop) : s.Ranked := fun _ => top.above

theorem ranked_wakeAt (inv : s.Invariant) (ranked : s.Ranked) (id : TaskId)
    (target : Option Priority) : (s.wakeAt id target).value.2.Ranked := by
  refine wakeAt_cases (P := fun r => r.2.Ranked) (fun _ => ranked) (fun _ _ _ _ => ranked) ?queued
    ?head (fun _ _ _ _ => ranked) ?sleeping
  case queued =>
    intro t l _ _ _ _ _
    exact ranked_requeued ranked id t.level l
  case head =>
    intro t l known _ _ moves first
    obtain ⟨rest, line⟩ := isHead_iff.mp first
    rw [inv.level_of_head known line] at moves
    exact ranked_carried ranked id moves
  case sleeping =>
    intro t _ _ _
    exact ranked_woken ranked id _

theorem ranked_wakeup (inv : s.Invariant) (ranked : s.Ranked) (id : TaskId) (level : Option Nat) :
    (s.wakeup id level).value.2.Ranked :=
  wakeup_cases (P := fun r => r.2.Ranked) (fun _ _ _ => ranked)
    (fun target _ => ranked_wakeAt inv ranked id target)

theorem ranked_send (inv : s.Invariant) (ranked : s.Ranked) (id : TaskId) (message : Message) :
    (s.send id message).value.2.Ranked := by
  have posted : (s.modify id fun t => { t with mailbox := t.mailbox ++ [message] }).Invariant :=
    invariant_modify inv id (fun _ => rfl) (fun _ => rfl) (fun _ primed => primed)
  exact send_cases (P := fun r => r.2.Ranked) (fun _ => ranked)
    (fun _ _ _ => ranked_modify ranked id _)
    (fun _ _ _ => ranked_wakeAt posted (ranked_modify ranked id _) id none)

/-- The task that goes to sleep hands its turn to the highest one. -/
theorem onTop_retire (inv : s.Invariant) (ranked : s.Ranked) {id : TaskId} {t : Task}
    (known : s.task? id = some t) (runs : t.running = true) (works : id ≠ s.idle)
    (first : s.isHead id = true) :
    ((s.modify id fun t => { t with running := false }).rotate true).2.OnTop :=
  onTop_rotate (ranked_modify ranked id _) (invariant_retire inv known runs works first)

theorem ranked_sleep (inv : s.Invariant) (ranked : s.Ranked) (id : TaskId) :
    (s.sleep id).value.2.Ranked := by
  refine sleep_cases (P := fun r => r.2.Ranked) (fun _ => ranked) (fun _ _ _ => ranked)
    ?head ?queued
  case head =>
    intro t known runs works first
    rw [value_yield]
    exact (onTop_retire inv ranked known runs works first).ranked
  case queued =>
    intro t _ _ _ _
    exact ranked_remove (ranked_modify ranked id _) id t.level

theorem onTop_sleep (inv : s.Invariant) (ranked : s.Ranked) (works : s.executing ≠ s.idle) :
    (s.sleep s.executing).value.2.OnTop := by
  obtain ⟨t, here, runs, -⟩ := inv.executing_runs
  -- it runs and has the turn, so of the four ways to go to sleep only one is open to it
  have first : s.isHead s.executing = true := isHead_iff.mpr inv.exists_head
  refine sleep_cases (P := fun r => r.2.OnTop) ?unknown ?stays ?head ?queued
  case unknown =>
    intro unknown
    rw [here] at unknown
    cases unknown
  case stays =>
    rintro u known (stopped | idles)
    · rw [here] at known
      cases known
      rw [runs] at stopped
      cases stopped
    · exact absurd idles works
  case head =>
    intro u known runs works first
    rw [value_yield]
    exact onTop_retire inv ranked known runs works first
  case queued =>
    intro _ _ _ _ queued
    rw [first] at queued
    cases queued

theorem onTop_preempt (inv : s.Invariant) (ranked : s.Ranked) (saved : Context) :
    (s.preempt saved).value.2.OnTop := by
  rw [preempt, value_yield]
  exact onTop_rotate (ranked_modify ranked _ _) (invariant_rotate
    (invariant_modify inv s.executing (fun _ => rfl) (fun _ => rfl) (fun _ primed => primed)))

theorem ranked_perform (inv : s.Invariant) (ranked : s.Ranked) (op : Operation) :
    (s.perform op).value.2.Ranked := by
  cases op with
  | create => exact ranked
  | prime id entry arg cr3 areas =>
    exact s.left_prime id entry arg cr3 areas ▸ ranked_modify ranked id _
  | wakeup id level => exact ranked_wakeup inv ranked id level
  | sleep id => exact ranked_sleep inv ranked id
  | send id message => exact ranked_send inv ranked id message
  | receive id => exact s.left_receive id ▸ ranked_modify ranked id _
  | setWindow id window => exact s.left_setWindow id window ▸ ranked_modify ranked id _
  | preempt saved => exact (onTop_preempt inv ranked saved).ranked

/-! ## Every state -/

theorem ranked_new (idleEntry cr3 : UInt64) (areas : Stacks) :
    (new idleEntry cr3 areas).value.Ranked := by
  intro _ l higher
  have top : l.val ≤ 7 := Nat.le_of_lt_succ l.isLt
  exact absurd (Fin.lt_def.mp higher) (Nat.not_lt.mpr top)

theorem reachable_ranked (reach : Reachable s) : s.Ranked := by
  induction reach with
  | start idleEntry cr3 areas => exact ranked_new idleEntry cr3 areas
  | next op reach ih => exact ranked_perform (reachable_invariant reach) ih op

/-- **Priority is never lost.** Unless a change of level is pending, nobody is queued above the
current level. And whenever the turn moves on, because of a preemption or because the executing
task goes to sleep, nothing is left pending and the turn is at the highest level that runs. -/
theorem highest_task_executes (reach : Reachable s) :
    (s.changePending = false → ∀ l, s.level < l → s.queue l = []) ∧
    (∀ saved, (s.preempt saved).value.2.OnTop) ∧
    (s.executing ≠ s.idle → (s.sleep s.executing).value.2.OnTop) := by
  have inv := reachable_invariant reach
  have ranked := reachable_ranked reach
  exact ⟨ranked, onTop_preempt inv ranked, onTop_sleep inv ranked⟩

/-- The main task moves down to level 2 while a task waits at level 4, and goes to sleep. -/
theorem highest_task_takes_over :
    let s := (new 0 0).value.run [.create, .prime 3 0x1000 5 0, .wakeup 3 (some 4),
      .wakeup 1 (some 2)]
    let later := s.run [.sleep 1]
    Reachable s ∧ s.executing = 1 ∧ s.changePending = true ∧ s.level < 4 ∧ s.queue 4 = [3] ∧
      later.executing = 3 ∧ (s.sleep s.executing).value.2.OnTop ∧
      later.changePending = false ∧ ∀ l, later.level < l → later.queue l = [] := by
  intro s later
  have reach : Reachable s := .run _ (.start 0 0 _)
  have reach' : Reachable later := .run _ reach
  have settled : later.changePending = false := by decide
  exact ⟨reach, by decide, by decide, by decide, by decide, by decide,
    (highest_task_executes reach).2.2 (by decide), settled,
    (highest_task_executes reach').1 settled⟩

end Nucleus.Scheduler
