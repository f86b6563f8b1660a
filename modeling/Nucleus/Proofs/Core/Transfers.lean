import Nucleus.Proofs.Core.Runs

/-!
# Transfers of control

The scheduler plans switches and the processor does them. On a processor that comes straight back,
every act hands over what the scheduler planned: one transfer if the turn has moved, else none.

* `Finishes`: most of what the core does cannot fail.
* `Passes`: control is passed on as the turn moves.
* `passes_act`: every act does, on a processor that comes straight back.
* `control_follows_turn`: the same of the scheduler, of every act that a core can reach, and of what
  runs under the scheduler's lock.
-/

namespace Nucleus.Core
open Platform
variable {α β : Type}

/-! ## Acts that cannot fail -/

def Finishes (x : CoreM α) : Prop := ∀ c, ∃ r, eval x c = .ok r

theorem Finishes.pure (a : α) : Finishes (Pure.pure a : CoreM α) := fun c => ⟨(a, c), rfl⟩

theorem Finishes.get : Finishes (MonadState.get : CoreM Core) := fun c => ⟨(c, c), rfl⟩

theorem Finishes.update (g : Core → Core) : Finishes (modify g) := fun c => ⟨((), g c), rfl⟩

theorem Finishes.lift (x : Logged α) : Finishes (Core.lift x) := fun c => ⟨(x.value, c), rfl⟩

theorem Finishes.bind {x : CoreM α} {f : α → CoreM β} (hx : Finishes x)
    (hf : ∀ a, Finishes (f a)) : Finishes (x >>= f) := by
  intro c
  obtain ⟨⟨a, d⟩, first⟩ := hx c
  obtain ⟨r, second⟩ := hf a d
  exact ⟨r, by rw [eval_bind, first]; exact second⟩

theorem Finishes.map {x : CoreM α} (hx : Finishes x) (f : α → β) : Finishes (f <$> x) := by
  rw [map_eq_pure_bind]
  exact hx.bind fun a => .pure (f a)

theorem Finishes.masked {body : CoreM α} (h : Finishes body) : Finishes (Core.masked body) :=
  .bind .get fun _ => .bind (.update _) fun _ => .bind h fun a => .bind (.update _) fun _ => .pure a

theorem Finishes.withTasks (f : Scheduler → Logged (α × Scheduler)) :
    Finishes (Core.withTasks f) :=
  fun c => ⟨_, eval_withTasks f c⟩

theorem Finishes.withFrames (f : Store → Logged (α × Store)) : Finishes (Core.withFrames f) :=
  fun c => ⟨_, eval_withFrames f c⟩

theorem Finishes.pageFault (code address : Nat) : Finishes (Core.pageFault code address) :=
  .bind (.withTasks _) fun _ => .bind .get fun _ => .withFrames _

theorem Finishes.faultTrap (code address : Nat) : Finishes (Core.faultTrap code address) := by
  refine .bind .get fun c => ?_
  cases c.installed with
  | false => exact .bind (.lift _) fun _ => .pure _
  | true =>
    refine .bind (.pageFault code address) fun r => ?_
    cases r with
    | ok _ => exact .pure _
    | error e => exact .bind (.lift _) fun _ => .pure _

theorem Finishes.call (away : CoreM Unit) {k : Call} (steady : k.yields = false)
    (untimed : ∀ ticks value owner, k ≠ .addTimer ticks value owner) :
    Finishes (Core.call away k) := by
  cases k with
  | create => exact .map (.masked (.withTasks _)) _
  | prime => exact .map (.bind .get fun _ => .masked (.withTasks _)) _
  | spawn => exact .map (.bind .get fun _ => .masked (.withTasks _)) _
  | wakeup | send | receive | setWindow => exact .map (.masked (.withTasks _)) _
  | addTimer ticks value owner => exact absurd rfl (untimed ticks value owner)
  | pageFault code address => exact .map (.masked (.pageFault code address)) _
  | idle => exact .map (.update _) _
  | install => exact .map (.update _) _
  | faultTrap code address =>
    refine .bind (.masked (.faultTrap code address)) fun goesOn => ?_
    cases goesOn <;> exact .pure _
  | sleep | receiveOrSleep | timerInterrupt | timerTrap => cases steady

/-- The latest tick that an act reckons with. -/
def horizon (c : Core) : Act → Nat
  | .call (.addTimer ticks _ _) => c.timers.value.now + ticks
  | .call (.timerInterrupt _) | .call (.timerTrap _) => c.timers.value.now + 1 + preemptionPeriod
  | _ => 0

theorem addTimer_eq_error (c : Core) (ticks : Nat) (value : Int) (owner : TaskId) {p : Panic}
    (failed : eval (addTimer ticks value owner) c = .error p) :
    p = .overflow ∧ Word.bound ≤ c.timers.value.now + ticks := by
  by_cases fits : c.timers.value.now + ticks < Word.bound
  · simp [addTimer, eval_masked, withTimers, check, eval_checked, Except.bind, Except.map,
      SpinLock.value_lock, Word.add?, fits] at failed
  · simp [addTimer, eval_masked, withTimers, check, eval_checked, Except.bind, Except.map,
      SpinLock.value_lock, Word.add?, fits] at failed
    exact ⟨failed.symm, Nat.le_of_not_lt fits⟩

theorem steady_eq_error (away : CoreM Unit) {c : Core} {a : Act} (steady : a.yields = false)
    {p : Panic} (failed : eval (perform away a) c = .error p) :
    p = .overflow ∧ Word.bound ≤ c.horizon a := by
  have ends : Finishes (perform away a) → p = .overflow ∧ Word.bound ≤ c.horizon a := by
    intro finishes
    obtain ⟨r, done⟩ := finishes c
    rw [done] at failed
    cases failed
  cases a with
  | call k =>
    by_cases timed : ∃ ticks value owner, k = .addTimer ticks value owner
    · obtain ⟨ticks, value, owner, rfl⟩ := timed
      rw [perform, call, eval_map] at failed
      cases ran : eval (addTimer ticks value owner) c with
      | error q =>
        rw [ran] at failed
        cases failed
        exact addTimer_eq_error c ticks value owner ran
      | ok r =>
        rw [ran] at failed
        cases failed
    · exact ends (.call away steady fun ticks value owner same => timed ⟨_, _, _, same⟩)
  | task => exact ends (.masked (.withTasks _))
  | translate => exact ends (.bind .get fun _ => .pure _)
  | loadCr3 => exact ends (.bind (.update _) fun _ => .pure _)
  | newUserTree => exact ends (.bind .get fun _ => .bind (.masked (.withFrames _)) fun _ => .pure _)
  | poke => exact ends (.bind (.update _) fun _ => .pure _)
  | allocate | release => exact ends (.masked (.withFrames _))

/-! ## Passing control on -/

/-- From `s` to `s'` the processor was asked for the transfers `asked`: for none while the same task
executes, else for the one that resumes the task whose turn it is now. -/
structure Transferred (s : Scheduler) (asked : List Transfer) (s' : Scheduler) : Prop where
  steady : s'.executing = s.executing → asked = []
  moved : s'.executing ≠ s.executing →
    asked = [.switchContext s.executing s'.executing] ∨ asked = [.restoreContext s'.executing]
  primed : s'.executing ≠ s.executing → s'.Primed s.executing ∧ s'.Primed s'.executing

theorem Transferred.of_executing {r s s' : Scheduler} {asked : List Transfer}
    (same : s.executing = r.executing) (h : Transferred s asked s') : Transferred r asked s' := by
  obtain ⟨steady, moved, primed⟩ := h
  rw [same] at steady moved primed
  exact ⟨steady, moved, primed⟩

theorem Transferred.of_announced {s s' : Scheduler} {w : Option Switch}
    (told : s.Announced w s') {f : Switch → Transfer}
    (via : f = (fun w => .switchContext w.save w.load) ∨ f = fun w => .restoreContext w.load) :
    Transferred s (w.toList.map f) s' := by
  by_cases same : s'.executing = s.executing
  · have none : w = none := by rw [told.switch, if_pos same]
    subst none
    exact ⟨fun _ => rfl, fun moved => absurd same moved, fun moved => absurd same moved⟩
  · have planned : w = some ⟨s.executing, s'.executing⟩ := by rw [told.switch, if_neg same]
    subst planned
    refine ⟨fun steady => absurd steady same, fun _ => ?_, fun _ => told.primed _ rfl⟩
    rcases via with rfl | rfl
    · exact .inl rfl
    · exact .inr rfl

/-- On `c`, `x` passes control on as the turn moves. If it comes to nothing, it is `late`. -/
def Passes (late : Prop) (x : CoreM α) (c : Core) : Prop :=
  match eval x c with
  | .ok (_, c') => ∃ asked, c'.transfers = c.transfers ++ asked ∧
      Transferred c.tasks.value asked c'.tasks.value
  | .error p => p = .overflow ∧ late

section
variable {late : Prop} {c : Core} {x : CoreM α}

/-- What `x` does to the scheduler and asks the processor for is all that counts. -/
theorem Passes.of_eval {d : Core} {y : CoreM β} {g : α × Core → β × Core} (h : Passes late x d)
    (ran : eval y c = (eval x d).map g)
    (before : d.tasks.value = c.tasks.value ∧ d.transfers = c.transfers)
    (after : ∀ r, (g r).2.tasks.value = r.2.tasks.value ∧ (g r).2.transfers = r.2.transfers) :
    Passes late y c := by
  rw [Passes] at h ⊢
  rw [ran]
  cases done : eval x d with
  | error p =>
    rw [done] at h
    exact h
  | ok r =>
    rw [done] at h
    obtain ⟨asked, told, moved⟩ := h
    rw [before.1] at moved
    rw [before.2] at told
    refine ⟨asked, (after r).2.trans told, ?_⟩
    rw [(after r).1]
    exact moved

theorem Passes.map (h : Passes late x c) (f : α → β) : Passes late (f <$> x) c :=
  h.of_eval (eval_map f x c) ⟨rfl, rfl⟩ fun _ => ⟨rfl, rfl⟩

theorem Passes.masked (h : Passes late x { c with interrupts := c.interrupts.mask.2 }) :
    Passes late (Core.masked x) c :=
  h.of_eval (eval_masked x c) ⟨rfl, rfl⟩ fun _ => ⟨rfl, rfl⟩

theorem passes_of_announced {a : α} {c' : Core} (done : eval x c = .ok (a, c'))
    {w : Option Switch} (told : c.tasks.value.Announced w c'.tasks.value)
    {f : Switch → Transfer}
    (via : f = (fun w => .switchContext w.save w.load) ∨ f = fun w => .restoreContext w.load)
    (asked : c'.transfers = c.transfers ++ w.toList.map f) : Passes late x c := by
  rw [Passes, done]
  exact ⟨_, asked, .of_announced told via⟩

/-- Where the turn and the transfers of `c` are as they were. -/
def Still (c : Core) (s : Scheduler) (ts : List Transfer) (_ : List (List Act)) : Prop :=
  s.Invariant ∧ s.executing = c.tasks.value.executing ∧ ts = c.transfers

theorem closed_still : Closed (Still c) := by
  rintro s ts _ op steady ⟨inv, same, quiet⟩
  exact ⟨Scheduler.invariant_perform inv op, (Scheduler.executing_perform inv op steady).trans same,
    quiet⟩

theorem passes_of_still (inv : c.tasks.value.Invariant) (kept : Keeps (Still c) x)
    (ends : ∀ p, eval x c = .error p → p = .overflow ∧ late) : Passes late x c := by
  cases ran : eval x c with
  | error p =>
    rw [Passes, ran]
    exact ends p ran
  | ok r =>
    obtain ⟨-, same, quiet⟩ := kept c r.1 r.2 ran ⟨inv, rfl, rfl⟩
    refine passes_of_announced ran (.refl same) (.inl rfl) ?_
    rw [quiet]
    exact (List.append_nil _).symm

/-- An operation of the scheduler that may plan a switch, and then the switch. -/
theorem passes_handover {f : Scheduler → Logged (α × Scheduler)} {k : α → CoreM β}
    (plan : α → Option Switch) {t : Switch → Transfer}
    (via : t = (fun w => .switchContext w.save w.load) ∨ t = fun w => .restoreContext w.load)
    (told : c.tasks.value.Announced (plan (f c.tasks.value).value.1) (f c.tasks.value).value.2)
    (stays : ∀ a, plan a = none → ∃ b, k a = pure b)
    (moves : ∀ a w, plan a = some w → ∃ e b, k a = (emit e >>= fun _ => pure b) ∧
      ∀ m, Event.transfer? (e m) = some (t w)) : Passes late (withTasks f >>= k) c := by
  obtain ⟨d, ran, now, quiet⟩ := exists_withTasks f c
  rw [← now] at told
  cases planned : plan (f c.tasks.value).value.1 with
  | none =>
    obtain ⟨b, rest⟩ := stays _ planned
    have done : eval (withTasks f >>= k) c = .ok (b, d) := by
      rw [eval_bind, ran]
      simp only [Except.bind, rest, eval_pure]
    refine passes_of_announced done told via ?_
    rw [planned, quiet]
    exact (List.append_nil _).symm
  | some w =>
    obtain ⟨e, b, rest, gives⟩ := moves _ w planned
    have done : eval (withTasks f >>= k) c =
        .ok (b, { d with events := d.events ++ [e d.moment] }) := by
      rw [eval_bind, ran]
      simp only [Except.bind, rest, eval_bind, eval_emit, eval_pure]
    refine passes_of_announced done told via ?_
    rw [planned, ← quiet]
    simp [transfers, gives]

theorem passes_sleep (inv : c.tasks.value.Invariant) (id : TaskId) :
    Passes late (sleep (pure ()) id) c := by
  refine .masked (passes_handover (fun r => r.toOption.join) (.inl rfl)
    (Scheduler.announced_sleep inv id) ?stays ?moves)
  case stays =>
    rintro (e | _ | w) planned
    · exact ⟨_, rfl⟩
    · exact ⟨_, rfl⟩
    · cases planned
  case moves =>
    rintro (e | _ | w) w' planned
    · cases planned
    · cases planned
    · cases planned
      exact ⟨_, _, rfl, fun _ => rfl⟩

theorem Passes.after {d : Core} {f : α → CoreM β} {a : α} (inv : c.tasks.value.Invariant)
    (kept : Keeps (Still c) x) (ran : eval x c = .ok (a, d))
    (rest : d.tasks.value.Invariant → Passes late (f a) d) : Passes late (x >>= f) c := by
  obtain ⟨inv', same, quiet⟩ := kept c a d ran ⟨inv, rfl, rfl⟩
  have goes := rest inv'
  rw [Passes] at goes
  rw [Passes, eval_bind, ran]
  cases done : eval (f a) d with
  | error p =>
    simp only [Except.bind, done]
    rw [done] at goes
    exact goes
  | ok r =>
    rw [done] at goes
    obtain ⟨asked, told, moved⟩ := goes
    simp only [Except.bind, done]
    exact ⟨asked, by rw [told, quiet], moved.of_executing same⟩

theorem passes_preempt (inv : c.tasks.value.Invariant) (saved : Context) :
    Passes late (do
      match ← withTasks fun s => s.preempt saved with
      | none => pure ()
      | some w => emit (.restoreContext w.load)) c := by
  refine passes_handover (fun w => w) (.inr rfl) (Scheduler.announced_preempt inv saved) ?stays
    ?moves
  case stays =>
    rintro _ rfl
    exact ⟨(), rfl⟩
  case moves =>
    rintro _ w rfl
    exact ⟨_, (), rfl, fun _ => rfl⟩

theorem tick_eq_error {p : Panic} (failed : eval tick c = .error p) :
    p = .overflow ∧ Word.bound ≤ c.timers.value.now + 1 + preemptionPeriod := by
  rw [eval_tick] at failed
  cases ticked : (c.timers.value.tick c.tasks.value).run.value with
  | error q =>
    rw [ticked] at failed
    cases failed
    exact Timers.tick_eq_error ticked
  | ok r =>
    rw [ticked] at failed
    cases failed

theorem passes_timerInterrupt (inv : c.tasks.value.Invariant) (saved : Context) :
    Passes (Word.bound ≤ c.timers.value.now + 1 + preemptionPeriod) (timerInterrupt saved) c := by
  cases ticked : eval tick c with
  | error p =>
    rw [Passes, timerInterrupt, eval_bind, ticked]
    exact tick_eq_error ticked
  | ok r =>
    obtain ⟨due, d⟩ := r
    refine .after inv closed_still.tick ticked fun inv => ?_
    refine .after inv (.quiet fun _ => rfl) (eval_emit .endOfInterrupt d) fun inv => ?_
    cases due with
    | false => exact passes_of_still inv (.pure ()) fun _ failed => by cases failed
    | true => exact passes_preempt inv saved

theorem passes_timerTrap (inv : c.tasks.value.Invariant) (saved : Context) :
    Passes (Word.bound ≤ c.timers.value.now + 1 + preemptionPeriod) (timerTrap saved) c := by
  refine .after inv .get rfl fun inv => ?_
  cases c.installed with
  | false => exact passes_of_still inv (.quiet fun _ => rfl) fun _ failed => by cases failed
  | true => exact passes_timerInterrupt inv saved

/-! ### Receiving -/

def Attempt.switch? : Attempt → Option Switch
  | .suspended w => some w
  | _ => none

/-- What an attempt comes to that found no message, by the answer to going to sleep. -/
def Attempt.ofSleep : Except TaskError (Option Switch) → Attempt
  | .error e => .refused e
  | .ok none => .stuck
  | .ok (some w) => .suspended w

theorem switch?_ofSleep (r : Except TaskError (Option Switch)) :
    (Attempt.ofSleep r).switch? = r.toOption.join := by
  rcases r with e | _ | w <;> rfl

variable {s : Scheduler} {id : TaskId}

theorem attempt_cases {P : Attempt × Scheduler → Prop}
    (unknown : s.task? id = none → P (.refused (.noSuchTask id), s))
    (mail : ∀ t m rest, s.task? id = some t → t.mailbox = m :: rest →
      P (.received m, s.modify id fun t => { t with mailbox := t.mailbox.tail }))
    (empty : ∀ t, s.task? id = some t → t.mailbox = [] →
      P (.ofSleep (s.sleep id).value.1, (s.sleep id).value.2)) :
    P (attempt id s).value := by
  refine Scheduler.receive_cases (P := fun r => s.receive id = r → P (attempt id s).value)
    ?unknown ?empty ?mail rfl
  case unknown =>
    intro none refused
    rw [attempt, refused]
    exact unknown none
  case mail =>
    intro t m rest known lies taken
    rw [attempt, taken]
    exact mail t m rest known lies
  case empty =>
    intro t known none nothing
    have goal := empty t known none
    rw [attempt, nothing]
    simp only [Logged.value_bind]
    rcases answer : (s.sleep id).value with ⟨_ | _ | _, s'⟩ <;> rw [answer] at goal <;> exact goal

theorem announced_attempt (inv : s.Invariant) (id : TaskId) :
    s.Announced (attempt id s).value.1.switch? (attempt id s).value.2 := by
  refine attempt_cases (P := fun r => s.Announced r.1.switch? r.2) (fun _ => .refl rfl)
    (fun _ _ _ _ _ => .refl (Scheduler.executing_modify _ _)) ?empty
  case empty =>
    intro _ _ _
    rw [switch?_ofSleep]
    exact Scheduler.announced_sleep inv id

theorem ofSleep_eq_suspended {r : Except TaskError (Option Switch)} {w : Switch} :
    Attempt.ofSleep r = .suspended w ↔ r = .ok (some w) := by
  rcases r with e | _ | v <;> simp [Attempt.ofSleep]

/-- Whoever suspended itself finds on its return, unless somebody woke it, that it cannot sleep. -/
theorem attempt_of_suspended {w : Switch} (suspended : (attempt id s).value.1 = .suspended w) :
    (attempt id (attempt id s).value.2).value = (.stuck, (attempt id s).value.2) := by
  revert suspended
  refine attempt_cases (P := fun r => r.1 = .suspended w →
    (attempt id r.2).value = (.stuck, r.2)) ?unknown ?mail ?empty
  case unknown => rintro _ ⟨⟩
  case mail => rintro _ _ _ _ _ ⟨⟩
  case empty =>
    intro t known none suspended
    have gone := Scheduler.task?_of_slept known (ofSleep_eq_suspended.mp suspended)
    generalize (s.sleep id).value.2 = s' at gone
    refine attempt_cases (P := fun r => r = (.stuck, s')) ?_ ?_ ?_
    · intro unknown
      rw [gone] at unknown
      cases unknown
    · intro u m rest here mail
      rw [gone] at here
      cases here
      rw [none] at mail
      cases mail
    · intro _ _ _
      rw [Scheduler.value_sleep_of_stopped gone rfl]
      rfl

/-- On a processor that comes straight back, a round ends in an answer or in a switch. -/
theorem eval_round (c : Core) (id : TaskId) : ∃ a d, eval (round (pure ()) id) c = .ok (a, d) ∧
    d.tasks.value = (attempt id c.tasks.value).value.2 ∧
    d.transfers = c.transfers ++ (attempt id c.tasks.value).value.1.switch?.toList.map
      (fun w => .switchContext w.save w.load) ∧
    (a = none ↔ ∃ w, (attempt id c.tasks.value).value.1 = .suspended w) := by
  rw [round, eval_masked, eval_bind, eval_withTasks]
  simp only [Except.bind]
  cases (attempt id c.tasks.value).value.1 with
  | refused | received | stuck | suspended =>
    refine ⟨_, _, rfl, rfl, ?_, ?_⟩
    · simp [transfers, transfers_contention, Attempt.switch?, Event.transfer?]
    · simp

theorem passes_receiveOrSleep (inv : c.tasks.value.Invariant) (id : TaskId) (rounds : Nat) :
    Passes late (receiveOrSleep (pure ()) id (rounds + 2)) c := by
  have told := announced_attempt inv id
  obtain ⟨a, d, ran, now, asked, ends⟩ := eval_round c id
  cases a with
  | some a =>
    have done : eval (receiveOrSleep (pure ()) id (rounds + 2)) c = .ok (a, d) := by
      rw [receiveOrSleep_succ, eval_bind, ran]
      rfl
    rw [← now] at told
    exact passes_of_announced done told (.inl rfl) asked
  | none =>
    -- The second round takes place after the switch, and cannot suspend the task again.
    obtain ⟨w, suspended⟩ := ends.mp rfl
    have stuck := attempt_of_suspended suspended
    rw [← now] at stuck told
    obtain ⟨a', d', ran', now', asked', ends'⟩ := eval_round d id
    rw [stuck] at now' asked' ends'
    cases a' with
    | none =>
      obtain ⟨v, again⟩ := ends'.mp rfl
      cases again
    | some a' =>
      have done : eval (receiveOrSleep (pure ()) id (rounds + 2)) c = .ok (a', d') := by
        rw [receiveOrSleep_succ, eval_bind, ran]
        simp only [Except.bind]
        rw [receiveOrSleep_succ, eval_bind, ran']
        rfl
      have same : d'.tasks.value = d.tasks.value := now'
      rw [← same] at told
      refine passes_of_announced done told (.inl rfl) ?_
      rw [asked', asked]
      exact List.append_nil _

theorem passes_act (inv : c.tasks.value.Invariant) (a : Act) :
    Passes (Word.bound ≤ c.horizon a) (perform (pure ()) a) c := by
  cases steady : a.yields with
  | false =>
    exact passes_of_still inv (closed_still.perform _ steady) fun p => steady_eq_error _ steady
  | true =>
    rcases a with ⟨k⟩ | _ | _ | _ | _ | _ | _ | _
    case call =>
      cases k with
      | sleep id => exact (passes_sleep inv id).map _
      | receiveOrSleep id =>
        exact .after inv .get rfl fun inv => (passes_receiveOrSleep inv id c.scripts.length).map _
      | timerInterrupt saved =>
        refine .map (.masked ?_) _
        exact passes_timerInterrupt (c := { c with interrupts := c.interrupts.mask.2 }) inv saved
      | timerTrap saved =>
        refine .map (.masked ?_) _
        exact passes_timerTrap (c := { c with interrupts := c.interrupts.mask.2 }) inv saved
      | _ => cases steady
    all_goals cases steady

end

theorem transferred_step {c : Core} (reach : Reachable c) (a : Act) :
    match (step { c with scripts := [] } a).run.value with
    | .ok (_, events, c') =>
      Transferred c.tasks.value (events.filterMap Event.transfer?) c'.tasks.value
    | .error p => p = .overflow ∧ Word.bound ≤ c.horizon a := by
  have inv := Scheduler.reachable_invariant reach.tasks
  have passes : Passes (Word.bound ≤ c.horizon a) (perform (pure ()) a)
      { c with scripts := [], events := [] } := by
    have all := passes_act (c := { c with scripts := [], events := [] }) inv a
    cases a <;> exact all
  have straight : away ([] : List (List Act)).length = pure () := rfl
  rw [eval_step, straight]
  rw [Passes] at passes
  cases ran : eval (perform (pure ()) a) { c with scripts := [], events := [] } with
  | error p =>
    rw [ran] at passes
    exact passes
  | ok r =>
    rw [ran] at passes
    obtain ⟨asked, told, moved⟩ := passes
    have all : r.2.transfers = asked := told
    rw [← all] at moved
    exact moved

/-- What runs under the lock of the scheduler without moving the turn on. -/
theorem eval_steady {c : Core} (reach : Reachable c) {f : Scheduler → Logged (α × Scheduler)}
    {ops : List Scheduler.Operation} (keeps : ∀ op ∈ ops, op.yields = false)
    (does : (f c.tasks.value).value.2 = c.tasks.value.run ops) :
    ∃ a c', eval (masked (withTasks f)) c = .ok (a, c') ∧ c'.transfers = c.transfers ∧
      c'.tasks.value.executing = c.tasks.value.executing := by
  have inv := Scheduler.reachable_invariant reach.tasks
  obtain ⟨d, ran, now, quiet⟩ := exists_withTasks f { c with interrupts := c.interrupts.mask.2 }
  rw [eval_masked, ran]
  refine ⟨_, _, rfl, quiet, ?_⟩
  have stays : d.tasks.value.executing = c.tasks.value.executing := by
    rw [now, does]
    exact Scheduler.executing_run inv keeps
  exact stays

/-- **Control follows the turn.** Of all that a scheduler does only going to sleep and preemption
move its turn on, and they plan the switch from the task that executed to the one that executes
now, both with something to resume, exactly if these are two. On a processor that comes straight
back every act of the core hands over just that: no transfer while the same task executes, else
one. An act that ends in no answer has run out of ticks. -/
theorem control_follows_turn :
    (∀ s : Scheduler, s.Reachable → ∀ op : Scheduler.Operation,
      s.Announced (s.perform op).value.1.switch? (s.perform op).value.2 ∧
        (op.yields = false → (s.perform op).value.2.executing = s.executing)) ∧
    (∀ c, Reachable c → ∀ a : Act,
      match (step { c with scripts := [] } a).run.value with
      | .ok (_, events, c') =>
        Transferred c.tasks.value (events.filterMap Event.transfer?) c'.tasks.value
      | .error p => p = .overflow ∧ Word.bound ≤ c.horizon a) ∧
    ∀ c, Reachable c → ∀ (α : Type) (f : Scheduler → Logged (α × Scheduler))
      (ops : List Scheduler.Operation), (∀ op ∈ ops, op.yields = false) →
      (f c.tasks.value).value.2 = c.tasks.value.run ops →
      ∃ a c', eval (masked (withTasks f)) c = .ok (a, c') ∧ c'.transfers = c.transfers ∧
        c'.tasks.value.executing = c.tasks.value.executing := by
  refine ⟨?scheduler, fun c reach a => transferred_step reach a, ?closures⟩
  case scheduler =>
    intro s reach op
    have inv := Scheduler.reachable_invariant reach
    exact ⟨Scheduler.announced_perform inv op, Scheduler.executing_perform inv op⟩
  case closures =>
    intro c reach α f ops keeps does
    exact eval_steady reach keeps does

/-- The main task goes to sleep, and a new one that waits at the same level takes over. -/
theorem control_follows_sleep :
    let s := (Scheduler.new 0 0).value.run [.create, .prime 3 0 0 0, .wakeup 3 (some 7)]
    let c : Core := { (new 0 .zero (.full 1) 0 []).value with tasks := .new s }
    let later := (s.perform (.sleep 1)).value.2
    s.Reachable ∧ Reachable c ∧ s.Announced (some ⟨1, 3⟩) later ∧
      (∃ events c', (step { c with scripts := [] } (.call (.sleep 1))).run.value =
        .ok (.done, events, c') ∧ events.filterMap Event.transfer? = [.switchContext 1 3] ∧
        Transferred s (events.filterMap Event.transfer?) c'.tasks.value) ∧
      ∃ r c', eval (masked (withTasks fun s => s.wakeup 3 (some 4))) c = .ok (r, c') ∧
        c'.transfers = [] ∧ c'.tasks.value.executing = 1 := by
  intro s c later
  have reach : s.Reachable := .run _ (.start 0 0 _)
  have reached : Reachable c := .schedules _ (.start 0 .zero (.full 1) 0 [] _) rfl
  have planned : (s.perform (.sleep 1)).value.1.switch? = some ⟨1, 3⟩ := by decide
  have told := (control_follows_turn.1 s reach (.sleep 1)).1
  rw [planned] at told
  have handed := control_follows_turn.2.1 c reached (.call (.sleep 1))
  have woken := control_follows_turn.2.2 c reached _ (fun s => s.wakeup 3 (some 4))
    [.wakeup 3 (some 4)] (by decide) rfl
  exact ⟨reach, reached, told, ⟨_, _, rfl, by decide, handed⟩, woken⟩

end Nucleus.Core
