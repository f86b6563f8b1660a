import Mathlib.Data.List.Induction
import Nucleus.Proofs.Task.Switches

/-!
# Saved contexts

The saved context of a task is written in two ways only: the task is primed, or it executes and
is preempted. So what a switch restores was saved for that very task.

* `image_perform`: what one operation does to the image of every task.
* `origin_run`: where the image of a task comes from, in every run.
* `contexts_kept_apart`: each operation writes at most the context of its own task, and each
  switch loads what was last saved of the task that it leads to.
-/

namespace Nucleus

/-- Whether a task has something to resume, and what is saved for it. -/
def Task.image (t : Task) : Bool × Context := (t.hasContext, t.context)

/-- The image of a task after `c`, if anything, was written into its context. -/
def Task.overwritten (c : Option Context) (t : Task) : Bool × Context :=
  match c with
  | none => t.image
  | some c => (true, c)

namespace Scheduler
variable {s : Scheduler} {id : TaskId}

/-- What `op` writes into the saved context of `id`: the image that starts the task as it is
primed, and what was captured of the executing task as it is preempted. -/
def written? (s : Scheduler) (id : TaskId) : Operation → Option Context
  | .prime j entry arg cr3 areas =>
    if j = id ∧ (s.task? j).isSome then some ((areas id).image id entry arg cr3) else none
  | .preempt saved => if s.executing = id then some saved else none
  | _ => none

/-! ## Each operation -/

theorem placeless_image : Placeless Task.image := ⟨fun _ _ => rfl, fun _ _ => rfl⟩

theorem image_send (s : Scheduler) (id j : TaskId) (m : Message) :
    ((s.send j m).value.2.task? id).map Task.image = (s.task? id).map Task.image := by
  have posted : ((s.modify j fun t => { t with mailbox := t.mailbox ++ [m] }).task? id).map
      Task.image = (s.task? id).map Task.image := map_of_kept (s.task?_modify j id _) fun _ => rfl
  apply send_cases (P := fun r => (r.2.task? id).map Task.image = (s.task? id).map Task.image)
  case unknown => exact fun _ => rfl
  case bare => exact fun _ _ _ => posted
  case primed => exact fun _ _ _ => (map_wakeAt placeless_image none).trans posted

theorem image_prime (s : Scheduler) (id j : TaskId) (entry : UInt64) (arg : Int64)
    (cr3 : UInt64) (areas : Stacks) :
    ((s.prime j entry arg cr3 areas).2.task? id).map Task.image =
      (s.task? id).map (Task.overwritten (s.written? id (.prime j entry arg cr3 areas))) := by
  rw [left_prime, task?_modify]
  cases known : s.task? id with
  | none => split <;> rfl
  | some t =>
    by_cases own : id = j
    · subst own
      simp [written?, known, Task.overwritten, Task.image, Task.prime]
    · simp [written?, own, Ne.symm own, Task.overwritten]

/-- The executing task has something to resume already. -/
theorem image_preempt (inv : s.Invariant) (id : TaskId) (saved : Context) :
    ((s.preempt saved).value.2.task? id).map Task.image =
      (s.task? id).map (Task.overwritten (s.written? id (.preempt saved))) := by
  rw [preempt, value_yield, task?_rotate, task?_modify]
  by_cases turn : id = s.executing
  · obtain ⟨t, known, primed⟩ := inv.primed_executing
    simp [turn, known, written?, Task.overwritten, Task.image, primed]
  · rw [if_neg turn, written?, if_neg (Ne.symm turn)]
    rfl

theorem image_perform (inv : s.Invariant) {op : Operation} (old : op ≠ .create) (id : TaskId) :
    ((s.perform op).value.2.task? id).map Task.image =
      (s.task? id).map (Task.overwritten (s.written? id op)) := by
  cases op with
  | create => exact absurd rfl old
  | prime j entry arg cr3 areas => exact image_prime s id j entry arg cr3 areas
  | wakeup j level =>
    apply wakeup_cases (P := fun r => (r.2.task? id).map Task.image = (s.task? id).map Task.image)
    case invalid => exact fun _ _ _ => rfl
    case valid => exact fun target _ => map_wakeAt placeless_image target
  | sleep j => exact map_sleep placeless_image
  | send j m => exact image_send s id j m
  | receive j => exact s.left_receive j ▸ map_of_kept (s.task?_modify j id _) fun _ => rfl
  | setWindow j window =>
    exact s.left_setWindow j window ▸ map_of_kept (s.task?_modify j id _) fun _ => rfl
  | preempt saved => exact image_preempt inv id saved

/-- A task stays, and its context changes only if it is written. -/
theorem exists_image (inv : s.Invariant) (op : Operation) {t : Task} (known : s.task? id = some t) :
    ∃ t', (s.perform op).value.2.task? id = some t' ∧
      t'.image = Task.overwritten (s.written? id op) t := by
  by_cases old : op = .create
  · subst old
    have other : id ≠ s.tasks.size + 1 := by
      rintro rfl
      rw [task?_size] at known
      cases known
    have same : (s.perform .create).value.2.task? id = s.task? id :=
      (s.task?_push id .fresh).trans (if_neg other)
    exact ⟨t, same.trans known, rfl⟩
  · have image := image_perform inv old id
    rw [known, Option.map_some, Option.map_eq_some_iff] at image
    exact image

/-- A task that comes in has nothing to resume. -/
theorem bare_of_unknown (inv : s.Invariant) (op : Operation) {t : Task}
    (unknown : s.task? id = none) (known : (s.perform op).value.2.task? id = some t) :
    t.hasContext = false := by
  by_cases old : op = .create
  · subst old
    have here : (if id = s.tasks.size + 1 then some Task.fresh else s.task? id) = some t :=
      (s.task?_push id .fresh).symm.trans known
    split at here
    · cases here
      rfl
    · rw [unknown] at here
      cases here
  · have image := image_perform inv old id
    rw [known, unknown] at image
    cases image

/-! ## Runs -/

/-- Nothing is written into the context of `id` while the operations are carried out. -/
def Unwritten (s : Scheduler) (id : TaskId) : List Operation → Prop
  | [] => True
  | op :: ops => s.written? id op = none ∧ (s.perform op).value.2.Unwritten id ops

theorem run_append (s : Scheduler) (before after : List Operation) :
    s.run (before ++ after) = (s.run before).run after := List.foldl_append

theorem unwritten_append {s : Scheduler} {before after : List Operation} :
    s.Unwritten id (before ++ after) ↔
      s.Unwritten id before ∧ (s.run before).Unwritten id after := by
  induction before generalizing s with
  | nil => exact (and_iff_right trivial).symm
  | cons op before ih => exact (and_congr_right fun _ => ih).trans and_assoc.symm

/-- How `c` came to be the saved context of `id` in the run `ops` from the start. -/
inductive Origin (idleEntry cr3 : UInt64) (idleStacks : Stacks) (ops : List Operation)
    (id : TaskId) (c : Context) : Prop where
  /-- It was captured when `id` executed and was preempted, and nothing was written since. -/
  | saved (before after : List Operation) (parts : ops = before ++ [.preempt c] ++ after)
      (own : ((new idleEntry cr3 idleStacks).value.run before).executing = id)
      (latest : ((new idleEntry cr3 idleStacks).value.run (before ++ [.preempt c])).Unwritten id
        after)
  /-- The task was primed, and nothing was written since. -/
  | primed (before after : List Operation) (entry : UInt64) (arg : Int64) (root : UInt64)
      (areas : Stacks) (parts : ops = before ++ [.prime id entry arg root areas] ++ after)
      (known : (((new idleEntry cr3 idleStacks).value.run before).task? id).isSome)
      (image : Context.primed entry id arg (areas id).stop root = .ok c)
      (latest : ((new idleEntry cr3 idleStacks).value.run
        (before ++ [.prime id entry arg root areas])).Unwritten id after)
  /-- The code that ran already was never preempted. -/
  | adopted (main : id = 1) (image : c = .zero)
      (never : (new idleEntry cr3 idleStacks).value.Unwritten id ops)
  /-- The idle task still has the image that it was made with. -/
  | idle (idles : id = 2) (image : Context.primed idleEntry 2 0 (idleStacks 2).stop cr3 = .ok c)
      (never : (new idleEntry cr3 idleStacks).value.Unwritten id ops)

variable {idleEntry cr3 : UInt64} {idleStacks : Stacks} {ops : List Operation} {op : Operation}
  {c : Context}

theorem Origin.kept (origin : Origin idleEntry cr3 idleStacks ops id c)
    (kept : ((new idleEntry cr3 idleStacks).value.run ops).written? id op = none) :
    Origin idleEntry cr3 idleStacks (ops ++ [op]) id c := by
  have one : ((new idleEntry cr3 idleStacks).value.run ops).Unwritten id [op] := ⟨kept, trivial⟩
  cases origin with
  | saved before after parts own latest =>
    subst parts
    rw [run_append] at one
    exact .saved before (after ++ [op]) (List.append_assoc ..) own
      (unwritten_append.mpr ⟨latest, one⟩)
  | primed before after entry arg root areas parts known image latest =>
    subst parts
    rw [run_append] at one
    exact .primed before (after ++ [op]) entry arg root areas (List.append_assoc ..) known image
      (unwritten_append.mpr ⟨latest, one⟩)
  | adopted main image never => exact .adopted main image (unwritten_append.mpr ⟨never, one⟩)
  | idle idles image never => exact .idle idles image (unwritten_append.mpr ⟨never, one⟩)

theorem origin_of_written
    (written : ((new idleEntry cr3 idleStacks).value.run ops).written? id op = some c) :
    Origin idleEntry cr3 idleStacks (ops ++ [op]) id c := by
  have parts : ops ++ [op] = ops ++ [op] ++ [] := (List.append_nil _).symm
  cases op with
  | prime j entry arg root areas =>
    simp only [written?, Option.ite_none_right_eq_some, Option.some.injEq] at written
    obtain ⟨⟨rfl, known⟩, rfl⟩ := written
    exact .primed ops [] entry arg root areas parts known ((areas _).primed_image ..) trivial
  | preempt saved =>
    simp only [written?, Option.ite_none_right_eq_some, Option.some.injEq] at written
    obtain ⟨turn, rfl⟩ := written
    exact .saved ops [] parts turn trivial
  | create | wakeup | sleep | send | receive | setWindow => cases written

theorem origin_new {t : Task} (known : (new idleEntry cr3 idleStacks).value.task? id = some t) :
    Origin idleEntry cr3 idleStacks [] id t.context := by
  rw [task?_new] at known
  split at known
  · next main =>
    cases known
    exact .adopted main rfl trivial
  · split at known
    · next idles =>
      cases known
      exact .idle idles ((idleStacks 2).primed_image ..) trivial
    · cases known

/-- Whatever can be resumed was saved for the task it is saved with. -/
theorem origin_run (idleEntry cr3 : UInt64) (idleStacks : Stacks) (ops : List Operation)
    (id : TaskId) (t : Task)
    (known : ((new idleEntry cr3 idleStacks).value.run ops).task? id = some t)
    (primed : t.hasContext = true) :
    Origin idleEntry cr3 idleStacks ops id t.context := by
  induction ops using List.reverseRecOn generalizing t with
  | nil => exact origin_new known
  | append_singleton ops op ih =>
    have inv : ((new idleEntry cr3 idleStacks).value.run ops).Invariant :=
      reachable_invariant (.run ops (.start idleEntry cr3 idleStacks))
    rw [run_append] at known
    cases before : ((new idleEntry cr3 idleStacks).value.run ops).task? id with
    | none =>
      rw [bare_of_unknown inv op before known] at primed
      cases primed
    | some u =>
      obtain ⟨t', after, image⟩ := exists_image inv op before
      cases after.symm.trans known
      cases written : ((new idleEntry cr3 idleStacks).value.run ops).written? id op with
      | none =>
        rw [written] at image
        obtain ⟨resumes, context⟩ := Prod.mk.inj image
        exact context ▸ (ih u before (resumes ▸ primed)).kept written
      | some c =>
        rw [written] at image
        exact (Prod.mk.inj image).2 ▸ origin_of_written written

/-- **Contexts are kept apart.** In every run, an operation changes the context of a task only by
priming that task, or by preempting it while it executes, which copies what was captured. So when
an operation asks for a switch, what it loads is the latest image captured of the next task since
that task was primed, or else the image that the task started with. -/
theorem contexts_kept_apart (idleEntry cr3 : UInt64) (idleStacks : Stacks) (ops : List Operation)
    (op : Operation) :
    let s := (new idleEntry cr3 idleStacks).value.run ops
    (∀ id t, s.task? id = some t → ∃ t', (s.perform op).value.2.task? id = some t' ∧
      t'.context = (s.written? id op).getD t.context) ∧
    ∀ w, (s.perform op).value.1.switch? = some w →
      w.save = s.executing ∧ w.load = (s.perform op).value.2.executing ∧
      ∃ t, (s.perform op).value.2.task? w.load = some t ∧
        Origin idleEntry cr3 idleStacks (ops ++ [op]) w.load t.context := by
  intro s
  have inv : s.Invariant := reachable_invariant (.run ops (.start idleEntry cr3 idleStacks))
  constructor
  · intro id t known
    obtain ⟨t', after, image⟩ := exists_image inv op known
    refine ⟨t', after, (congrArg Prod.snd image).trans ?_⟩
    cases s.written? id op <;> rfl
  · intro w asked
    have told := announced_perform inv op
    have parts := told.switch
    rw [asked] at parts
    split at parts
    · cases parts
    · cases parts
      obtain ⟨t, known, primed⟩ := (told.primed _ asked).2
      have known' : ((new idleEntry cr3 idleStacks).value.run (ops ++ [op])).task?
          (s.perform op).value.2.executing = some t := by
        rw [run_append]
        exact known
      exact ⟨rfl, rfl, t, known, origin_run _ _ _ (ops ++ [op]) _ t known' primed⟩

/-- Two tasks share a level with the main task. The first is preempted and then moves up, while
the others are preempted and put to sleep; what is loaded for it is its own image. -/
theorem contexts_kept_apart_level_change :
    let a : Context := { Context.zero with rip := 0xdeadb000 }
    let b : Context := { Context.zero with rip := 0xcafe0000 }
    let ops : List Operation := [.create, .create, .prime 3 0x1000 5 0, .prime 4 0x2000 6 0,
      .wakeup 1 (some 2), .wakeup 3 (some 2), .wakeup 4 (some 2), .preempt b, .preempt a,
      .wakeup 3 (some 5), .prime 1 0x3000 7 0]
    (((new 0 0).value.run ops).perform (.sleep 4)).value.1.switch? = some ⟨4, 3⟩ ∧
      ∃ t, (((new 0 0).value.run ops).perform (.sleep 4)).value.2.task? 3 = some t ∧
        t.context.rip = 0xdeadb000 ∧ Origin 0 0 .inOrder (ops ++ [.sleep 4]) 3 t.context := by
  intro a b ops
  have asked : (((new 0 0).value.run ops).perform (.sleep 4)).value.1.switch? = some ⟨4, 3⟩ := by
    decide
  have image : ((((new 0 0).value.run ops).perform (.sleep 4)).value.2.task? 3).map
      (·.context.rip) = some 0xdeadb000 := by decide
  obtain ⟨-, -, t, known, origin⟩ :=
    (contexts_kept_apart 0 0 .inOrder ops (.sleep 4)).2 ⟨4, 3⟩ asked
  simp only [Switch.load] at known
  rw [known] at image
  exact ⟨asked, t, known, Option.some.inj image, origin⟩

end Scheduler

end Nucleus
