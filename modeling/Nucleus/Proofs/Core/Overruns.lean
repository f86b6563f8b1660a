import Mathlib.Algebra.Group.Nat.Defs
import Nucleus.Proofs.Core.Alarms
import Nucleus.Proofs.Task.Periods

/-!
# Overruns

Of all that the core checks on the way of an act only a sum of ticks can fail: the next tick, the
tick of the next preemption, and the tick at which a new timer is to expire. The first two are good
for as long as ticks can be counted. The last takes its summand from the caller, so a task stops the
machine with any number of ticks that is large enough.

* `Ends`: a computation that comes to an answer, from what to what.
* `ends_perform`, `ends_ticking`: every act does, unless it goes past its `horizon`.
* `Budget`: how many interrupts of the timer may still come, from an act or out of the scripts.
* `ends_play`, `ends_away`: what goes on while a caller is away stays within the budget.
* `stopped_only_by_overrun`: when an act has an answer.
-/

namespace Nucleus

/-- Whether an act is an interrupt of the timer. -/
def Act.ticks : Act → Bool
  | .call (.timerInterrupt _) | .call (.timerTrap _) => true
  | _ => false

namespace Core
open Platform
variable {α β : Type} {P Q R : Core → Prop} {c d : Core}

/-- From wherever `P` holds `x` comes to an answer, and then `Q` holds. -/
def Ends (P Q : Core → Prop) (x : CoreM α) : Prop :=
  ∀ c, P c → ∃ a d, eval x c = .ok (a, d) ∧ Q d

/-- `P` sees nothing of a core but its tick and the scripts that are left. -/
def Blind (P : Core → Prop) : Prop :=
  ∀ c d : Core, d.timers.value.now = c.timers.value.now → d.scripts = c.scripts → P c → P d

theorem Ends.pure (a : α) : Ends P P (Pure.pure a : CoreM α) := fun c holds => ⟨a, c, rfl, holds⟩

theorem Ends.get : Ends P P (MonadState.get : CoreM Core) := fun c holds => ⟨c, c, rfl, holds⟩

theorem Ends.lift (x : Logged α) : Ends P P (Core.lift x) :=
  fun c holds => ⟨x.value, c, rfl, holds⟩

theorem Ends.bind {x : CoreM α} {f : α → CoreM β} (hx : Ends P Q x) (hf : ∀ a, Ends Q R (f a)) :
    Ends P R (x >>= f) := by
  intro c holds
  obtain ⟨a, d, first, holds⟩ := hx c holds
  obtain ⟨b, e, second, holds⟩ := hf a d holds
  exact ⟨b, e, eval_bind_eq_ok.mpr ⟨a, d, first, second⟩, holds⟩

theorem Ends.map {x : CoreM α} (hx : Ends P Q x) (f : α → β) : Ends P Q (f <$> x) := by
  rw [map_eq_pure_bind]
  exact hx.bind fun a => .pure (f a)

section
variable (blind : Blind P)
include blind

theorem Blind.update {g : Core → Core}
    (beside : ∀ c, (g c).timers = c.timers ∧ (g c).scripts = c.scripts) : Ends P P (modify g) :=
  fun c holds => ⟨(), g c, rfl, blind c _ (by rw [(beside c).1]) (beside c).2 holds⟩

theorem Blind.emit (e : Moment → Event) : Ends P P (Core.emit e) :=
  blind.update fun _ => ⟨rfl, rfl⟩

theorem Blind.masked {x : CoreM α} (h : Ends P P x) : Ends P P (Core.masked x) := by
  intro c holds
  obtain ⟨a, d, ran, holds⟩ := h { c with interrupts := c.interrupts.mask.2 }
    (blind c _ rfl rfl holds)
  rw [eval_masked, ran]
  exact ⟨a, _, rfl, blind d _ rfl rfl holds⟩

theorem Blind.withTasks (f : Scheduler → Logged (α × Scheduler)) :
    Ends P P (Core.withTasks f) :=
  fun c holds => ⟨_, _, eval_withTasks f c, blind c _ rfl rfl holds⟩

theorem Blind.withFrames (f : Store → Logged (α × Store)) : Ends P P (Core.withFrames f) :=
  fun c holds => ⟨_, _, eval_withFrames f c, blind c _ rfl rfl holds⟩

theorem Blind.addTimer {ticks : Nat} (fits : ∀ c, P c → c.timers.value.now + ticks < Word.bound)
    (value : Int) (owner : TaskId) : Ends P P (Core.addTimer ticks value owner) := by
  apply blind.masked
  intro c holds
  have counted : Word.add? c.timers.value.now ticks = .ok (c.timers.value.now + ticks) :=
    Word.add?_eq_ok.mpr ⟨fits c holds, rfl⟩
  rw [eval_withTimers]
  simp only [eval_bind, check, eval_checked, Checked.value_run_check, counted]
  exact ⟨_, _, rfl, blind c _ rfl rfl holds⟩

theorem Blind.pageFault (code address : Nat) : Ends P P (Core.pageFault code address) :=
  (blind.withTasks _).bind fun _ => Ends.get.bind fun _ => blind.withFrames _

theorem Blind.faultTrap (code address : Nat) : Ends P P (Core.faultTrap code address) := by
  apply Ends.get.bind
  intro c
  cases c.installed with
  | false => exact (Ends.lift _).bind fun _ => .pure _
  | true =>
    apply (blind.pageFault code address).bind
    intro r
    cases r with
    | ok _ => exact .pure _
    | error e => exact (Ends.lift _).bind fun _ => .pure _

variable {elsewhere : CoreM Unit} (back : Ends P P elsewhere)
include back

theorem Blind.switchTo (w : Switch) : Ends P P (Core.switchTo elsewhere w) :=
  (blind.emit _).bind fun _ => back

theorem Blind.sleep (id : TaskId) : Ends P P (Core.sleep elsewhere id) := by
  apply blind.masked
  apply (blind.withTasks _).bind
  rintro (e | _ | w)
  · exact .pure _
  · exact .pure _
  · exact (blind.switchTo back w).bind fun _ => .pure _

theorem Blind.round (id : TaskId) : Ends P P (Core.round elsewhere id) := by
  apply blind.masked
  apply (blind.withTasks _).bind
  intro r
  cases r with
  | refused | received | stuck => exact .pure _
  | suspended w => exact (blind.switchTo back w).bind fun _ => .pure _

theorem Blind.receiveOrSleep (id : TaskId) (rounds : Nat) :
    Ends P P (Core.receiveOrSleep elsewhere id rounds) := by
  induction rounds with
  | zero => exact .pure _
  | succ rounds ih =>
    rw [receiveOrSleep_succ]
    apply (blind.round back id).bind
    intro answer
    cases answer with
    | some a => exact .pure a
    | none => exact ih

/-- What comes to an answer whenever whoever gets control meanwhile comes back, and the tick that
it reckons with can be counted. -/
theorem ends_call {k : Call} (plain : (Act.call k).ticks = false)
    (fits : ∀ c, P c → c.horizon (.call k) < Word.bound) : Ends P P (call elsewhere k) := by
  cases k with
  | create => exact (blind.masked (blind.withTasks _)).map _
  | prime => exact (Ends.get.bind fun _ => blind.masked (blind.withTasks _)).map _
  | spawn => exact (Ends.get.bind fun _ => blind.masked (blind.withTasks _)).map _
  | wakeup | send | receive | setWindow => exact (blind.masked (blind.withTasks _)).map _
  | sleep id => exact (blind.sleep back id).map _
  | receiveOrSleep id => exact Ends.get.bind fun _ => (blind.receiveOrSleep back id _).map _
  | addTimer ticks value owner => exact (blind.addTimer fits value owner).map _
  | pageFault code address => exact (blind.masked (blind.pageFault code address)).map _
  | idle => exact (blind.emit _).map _
  | install =>
    apply Ends.map
    exact blind.update (g := fun c => { c with installed := true }) fun _ => ⟨rfl, rfl⟩
  | faultTrap code address =>
    apply (blind.masked (blind.faultTrap code address)).bind
    intro goesOn
    cases goesOn <;> exact .pure _
  | timerInterrupt | timerTrap => cases plain

theorem ends_perform {a : Act} (plain : a.ticks = false)
    (fits : ∀ c, P c → c.horizon a < Word.bound) : Ends P P (perform elsewhere a) := by
  cases a with
  | call k => exact ends_call blind back plain fits
  | task id => exact blind.masked (blind.withTasks _)
  | translate => exact Ends.get.bind fun _ => .pure _
  | loadCr3 value =>
    exact (blind.update (g := fun c => { c with cr3 := value }) fun _ => ⟨rfl, rfl⟩).bind
      fun _ => .pure _
  | newUserTree =>
    exact Ends.get.bind fun _ => (blind.masked (blind.withFrames _)).bind fun _ => .pure _
  | poke frame index e =>
    exact (blind.update (g := fun c => { c with memory := c.memory.put frame index e })
      fun _ => ⟨rfl, rfl⟩).bind fun _ => .pure _
  | allocate | release => exact blind.masked (blind.withFrames _)

end

/-! ## Interrupts -/

/-- The next tick has come, or none, and the scripts are as they were. -/
structure Next (c d : Core) : Prop where
  scripts : d.scripts = c.scripts
  now : d.timers.value.now ≤ c.timers.value.now + 1

theorem blind_next : Blind (Next c) :=
  fun _ _ same left next => ⟨left.trans next.scripts, same ▸ next.now⟩

theorem ends_tick (soon : c.timers.value.now + 1 + preemptionPeriod < Word.bound) :
    ∃ due d, eval tick c = .ok (due, d) ∧ Next c d := by
  obtain ⟨due, ts, s, ticked⟩ := Timers.exists_tick c.tasks.value soon
  have now : ts.now = c.timers.value.now + 1 := Timers.now_tick ticked
  rw [eval_tick, ticked]
  exact ⟨due, _, rfl, rfl, Nat.le_of_eq now⟩

theorem ends_timerInterrupt (saved : Context)
    (soon : c.timers.value.now + 1 + preemptionPeriod < Word.bound) :
    ∃ d, eval (timerInterrupt saved) c = .ok ((), d) ∧ Next c d := by
  have ticked : Ends (· = c) (Next c) tick := by
    rintro _ rfl
    exact ends_tick soon
  have handled : Ends (· = c) (Next c) (timerInterrupt saved) := by
    apply ticked.bind
    intro due
    apply (blind_next.emit _).bind
    intro _
    cases due with
    | false => exact .pure ()
    | true =>
      apply (blind_next.withTasks _).bind
      rintro (_ | w)
      · exact .pure ()
      · exact blind_next.emit _
  obtain ⟨_, d, done, next⟩ := handled c rfl
  exact ⟨d, done, next⟩

theorem ends_timerTrap (saved : Context)
    (soon : c.timers.value.now + 1 + preemptionPeriod < Word.bound) :
    ∃ d, eval (timerTrap saved) c = .ok ((), d) ∧ Next c d := by
  rw [timerTrap, eval_bind, eval_get]
  simp only [Except.bind]
  cases c.installed with
  | false => exact ⟨_, rfl, rfl, Nat.le_succ _⟩
  | true => exact ends_timerInterrupt saved soon

/-- An interrupt comes to an answer if its tick and the turn after it can be counted. -/
theorem ends_ticking (elsewhere : CoreM Unit) {a : Act} (ticks : a.ticks = true)
    (soon : c.timers.value.now + 1 + preemptionPeriod < Word.bound) :
    ∃ r d, eval (perform elsewhere a) c = .ok (r, d) ∧ Next c d := by
  let inside : Core := { c with interrupts := c.interrupts.mask.2 }
  have masked {x : CoreM Unit} (done : ∃ d, eval x inside = .ok ((), d) ∧ Next inside d) :
      ∃ r d, eval ((fun _ => Answer.done) <$> masked x) c = .ok (r, d) ∧ Next c d := by
    obtain ⟨d, ran, next⟩ := done
    rw [eval_map, eval_masked, ran]
    exact ⟨.done, _, rfl, next.scripts, next.now⟩
  cases a with
  | call k =>
    cases k with
    | timerInterrupt saved => exact masked (ends_timerInterrupt (c := inside) saved soon)
    | timerTrap saved => exact masked (ends_timerTrap (c := inside) saved soon)
    | _ => cases ticks
  | _ => cases ticks

/-! ## One act -/

/-- Only interrupts and new timers reckon with ticks. -/
theorem horizon_eq_zero {a : Act} (plain : a.ticks = false)
    (untimed : ∀ ticks value owner, a ≠ .call (.addTimer ticks value owner)) (c : Core) :
    c.horizon a = 0 := by
  cases a with
  | call k =>
    cases k with
    | addTimer ticks value owner => exact absurd rfl (untimed ticks value owner)
    | timerInterrupt | timerTrap => cases plain
    | _ => rfl
  | _ => rfl

theorem eval_addTimer_of_past {ticks : Nat} (past : Word.bound ≤ c.timers.value.now + ticks)
    (value : Int) (owner : TaskId) (elsewhere : CoreM Unit) :
    eval (perform elsewhere (.call (.addTimer ticks value owner))) c = .error .overflow := by
  have overflow : Word.add? c.timers.value.now ticks = .error .overflow :=
    if_neg (Nat.not_lt.mpr past)
  rw [perform, call, eval_map, addTimer, eval_masked, eval_withTimers]
  simp only [eval_bind, check, eval_checked, Checked.value_run_check, overflow]
  rfl

/-- Short of the end of time an act stops only for a new timer whose tick cannot be counted, if
whoever gets control meanwhile comes back. -/
theorem error_perform_iff {elsewhere : CoreM Unit} (finishes : Finishes elsewhere)
    (soon : c.timers.value.now + 1 + preemptionPeriod < Word.bound) {a : Act} {p : Panic} :
    eval (perform elsewhere a) c = .error p ↔ p = .overflow ∧
      ∃ ticks value owner, a = .call (.addTimer ticks value owner) ∧
        Word.bound ≤ c.timers.value.now + ticks := by
  constructor
  case mpr =>
    rintro ⟨rfl, ticks, value, owner, rfl, past⟩
    exact eval_addTimer_of_past past value owner elsewhere
  case mp =>
    intro failed
    by_cases timed : ∃ ticks value owner, a = .call (.addTimer ticks value owner)
    · obtain ⟨ticks, value, owner, rfl⟩ := timed
      obtain ⟨overflow, past⟩ := steady_eq_error elsewhere rfl failed
      exact ⟨overflow, ticks, value, owner, rfl, past⟩
    · cases plain : a.ticks with
      | true =>
        obtain ⟨r, d, done, -⟩ := ends_ticking elsewhere plain soon
        cases done.symm.trans failed
      | false =>
        have untimed : ∀ d, True → Core.horizon d a < Word.bound := by
          intro d _
          rw [horizon_eq_zero plain fun _ _ _ same => timed ⟨_, _, _, same⟩]
          decide
        have back : Ends (fun _ => True) (fun _ => True) elsewhere := by
          intro d _
          obtain ⟨r, done⟩ := finishes d
          exact ⟨r.1, r.2, done, trivial⟩
        obtain ⟨r, d, done, -⟩ := ends_perform (fun _ _ _ _ _ => trivial) back plain untimed c trivial
        cases done.symm.trans failed

/-! ## Scripts -/

/-- Every timer that is added can be counted from tick `limit` on. -/
def Affordable (limit : Nat) (acts : List Act) : Prop :=
  ∀ ticks value owner, .call (.addTimer ticks value owner) ∈ acts → limit + ticks < Word.bound

theorem Affordable.mono {limit : Nat} {acts fewer : List Act} (h : Affordable limit acts)
    (among : fewer ⊆ acts) : Affordable limit fewer :=
  fun ticks value owner here => h ticks value owner (among here)

/-- The scripts and `n` interrupts more do not go past tick `limit`, and what the scripts add can
be counted from there. -/
structure Budget (limit n : Nat) (c : Core) : Prop where
  clock : c.timers.value.now + c.scripts.flatten.countP Act.ticks + n ≤ limit
  affordable : Affordable limit c.scripts.flatten

variable {limit n m : Nat}

theorem blind_budget : Blind (Budget limit n) :=
  fun _ _ same left budget =>
    ⟨same ▸ left ▸ budget.clock, left ▸ budget.affordable⟩

theorem Budget.mono (budget : Budget limit n c) (less : m ≤ n) : Budget limit m c :=
  ⟨Nat.le_trans (Nat.add_le_add_left less _) budget.clock, budget.affordable⟩

theorem Budget.horizon_lt (budget : Budget limit n c) {a : Act} (plain : a.ticks = false)
    (affordable : Affordable limit [a]) : c.horizon a < Word.bound := by
  by_cases timed : ∃ ticks value owner, a = .call (.addTimer ticks value owner)
  · obtain ⟨ticks, value, owner, rfl⟩ := timed
    have fits : limit + ticks < Word.bound := affordable ticks value owner (.head [])
    have now : c.timers.value.now ≤ limit := by
      have clock := budget.clock
      omega
    exact Nat.lt_of_le_of_lt (Nat.add_le_add_right now ticks) fits
  · rw [horizon_eq_zero plain fun _ _ _ same => timed ⟨_, _, _, same⟩]
    decide

section
variable (soon : limit + preemptionPeriod < Word.bound)
include soon

theorem Budget.next (budget : Budget limit (n + 1) c) {elsewhere : CoreM Unit} {a : Act}
    (ticks : a.ticks = true) :
    ∃ r d, eval (perform elsewhere a) c = .ok (r, d) ∧ Budget limit n d := by
  obtain ⟨clock, affordable⟩ := budget
  obtain ⟨r, d, done, scripts, now⟩ := ends_ticking elsewhere ticks (c := c) (by omega)
  refine ⟨r, d, done, ?_, scripts ▸ affordable⟩
  rw [scripts]
  omega

variable {elsewhere : CoreM Unit} (back : ∀ n, Ends (Budget limit n) (Budget limit n) elsewhere)
include back

/-- An act spends an interrupt if it is one. -/
theorem ends_act {a : Act} (affordable : Affordable limit [a]) (n : Nat) :
    Ends (Budget limit (n + [a].countP Act.ticks)) (Budget limit n) (perform elsewhere a) := by
  cases ticks : a.ticks with
  | true =>
    intro c budget
    rw [List.countP_singleton, if_pos ticks] at budget
    exact budget.next soon ticks
  | false =>
    rw [List.countP_singleton, if_neg (by simp [ticks])]
    exact ends_perform blind_budget (back n) ticks fun c budget => budget.horizon_lt ticks affordable

theorem ends_play {script : List Act} (affordable : Affordable limit script) (n : Nat) :
    Ends (Budget limit (n + script.countP Act.ticks)) (Budget limit n) (play elsewhere script) := by
  induction script with
  | nil => exact .pure ()
  | cons a rest ih =>
    have first : Affordable limit [a] :=
      affordable.mono (List.cons_subset_cons a (List.nil_subset rest))
    have later : Affordable limit rest := affordable.mono (List.subset_cons_self a rest)
    have shared : n + (a :: rest).countP Act.ticks =
        n + rest.countP Act.ticks + [a].countP Act.ticks := by
      rw [← List.singleton_append, List.countP_append]
      omega
    rw [shared]
    apply (ends_act soon back first _).bind
    intro r
    apply (blind_budget.emit _).bind
    intro _
    cases r.isHalted with
    | false => exact ih later
    | true => exact fun c budget => ⟨(), c, rfl, budget.mono (Nat.le_add_right _ _)⟩

end

/-- What goes on while a caller is away spends no more than the interrupts in the scripts. -/
theorem ends_away (soon : limit + preemptionPeriod < Word.bound) (depth n : Nat) :
    Ends (Budget limit n) (Budget limit n) (away depth) := by
  induction depth generalizing n with
  | zero => exact .pure ()
  | succ depth ih =>
    intro c budget
    obtain ⟨clock, affordable⟩ := budget
    rw [away, eval_bind, eval_get]
    simp only [Except.bind]
    cases left : c.scripts with
    | nil => exact ⟨(), c, rfl, clock, affordable⟩
    | cons script rest =>
      rw [left, List.flatten_cons] at affordable
      rw [left, List.flatten_cons, List.countP_append] at clock
      have played := ends_play soon ih (affordable.mono (List.subset_append_left script _)) n
      have moved : c.timers.value.now + rest.flatten.countP Act.ticks +
          (n + script.countP Act.ticks) ≤ limit := by omega
      exact played { c with scripts := rest }
        ⟨moved, affordable.mono (List.subset_append_right script _)⟩

/-- An act from outside, if ticks last for all the interrupts in it and in the scripts and every
timer that is added meanwhile can be counted. -/
theorem exists_step {a : Act}
    (clock : c.timers.value.now + (a :: c.scripts.flatten).countP Act.ticks ≤ limit)
    (affordable : Affordable limit (a :: c.scripts.flatten))
    (soon : limit + preemptionPeriod < Word.bound) :
    ∃ r events d, (c.step a).run.value = .ok (r, events, d) ∧ d.timers.value.now ≤ limit := by
  have single : Affordable limit [a] :=
    affordable.mono (List.cons_subset_cons a (List.nil_subset _))
  rw [← List.singleton_append, List.countP_append] at clock
  have moved : c.timers.value.now + c.scripts.flatten.countP Act.ticks +
      (0 + [a].countP Act.ticks) ≤ limit := by omega
  have budget : Budget limit (0 + [a].countP Act.ticks) { c with events := [] } :=
    ⟨moved, affordable.mono (List.subset_cons_self a _)⟩
  obtain ⟨r, d, done, left⟩ := ends_act soon (ends_away soon c.scripts.length) single 0 _ budget
  refine ⟨r, d.events, d, step_eq_ok.mpr ⟨done, rfl⟩, ?_⟩
  have spent := left.clock
  omega

/-- **Only a timer can stop the core.** As long as fewer than 2^63 interrupts have come, an act has
an answer whatever its arguments and however the core has come about, with one exception: nothing
refuses a new timer whose tick cannot be counted, and the machine stops. Here whoever gets control
while the caller is away comes back. If that is up to the scripts, the act has an answer as long as
the interrupts in it and in the scripts stay below the same number and every timer that is added
meanwhile can be counted from there; and the tick goes on by no more than these interrupts. -/
theorem stopped_only_by_overrun (c : Core) (a : Act) (early : c.timers.value.now < 2 ^ 63) :
    (∀ elsewhere : CoreM Unit, Finishes elsewhere → ∀ p : Panic,
      eval (perform elsewhere a) c = .error p ↔ p = .overflow ∧
        ∃ ticks value owner, a = .call (.addTimer ticks value owner) ∧
          Word.bound ≤ c.timers.value.now + ticks) ∧
    ∀ limit : Nat, limit < 2 ^ 63 →
      c.timers.value.now + (a :: c.scripts.flatten).countP Act.ticks ≤ limit →
      Affordable limit (a :: c.scripts.flatten) →
      ∃ r events d, (c.step a).run.value = .ok (r, events, d) ∧ d.timers.value.now ≤ limit := by
  constructor
  · intro elsewhere finishes p
    have soon : c.timers.value.now + 1 + preemptionPeriod < Word.bound := by
      simp only [preemptionPeriod, Word.bound]
      omega
    exact error_perform_iff finishes soon
  · intro limit small clock affordable
    have soon : limit + preemptionPeriod < Word.bound := by
      simp only [preemptionPeriod, Word.bound]
      omega
    exact exists_step clock affordable soon

/-- A core that one interrupt has come to. -/
theorem first_interrupt :
    ∃ r events c, ((new 0 .zero (.full 1) 0 []).value.step
        (.call (.timerInterrupt .zero))).run.value = .ok (r, events, c) ∧
      Reachable c ∧ c.timers.value.now = 1 := by
  have told : (((new 0 .zero (.full 1) 0 []).value.step
      (.call (.timerInterrupt .zero))).run.value.toOption.map fun r =>
        r.2.2.timers.value.now) = some 1 := by
    decide +kernel
  obtain ⟨⟨r, events, c⟩, done, now⟩ := exists_of_told told
  exact ⟨r, events, c, done, .next _ (.start 0 .zero (.full 1) 0 [] _) done, now⟩

/-- One interrupt has come: the last timer whose tick can be counted is added, the one after it
stops the machine. At the start, the main task waits for a message while others add a timer, are
interrupted and send it one. -/
theorem stopped_only_by_overrun_at_one :
    (∃ c, Reachable c ∧ c.timers.value.now = 1 ∧
      eval (perform (pure ()) (.call (.addTimer Word.max 7 1))) c = .error .overflow ∧
      ∀ p, eval (perform (pure ()) (.call (.addTimer (Word.max - 1) 7 1))) c ≠ .error p) ∧
    let script : List Act := [.call (.addTimer (2 ^ 63) 7 1), .call (.timerInterrupt .zero),
      .call (.send 1 .interruptXhci)]
    ∃ r events d, ((new 0 .zero (.full 1) 0 [script]).value.step
        (.call (.receiveOrSleep 1))).run.value = .ok (r, events, d) ∧ d.timers.value.now ≤ 1 := by
  constructor
  · obtain ⟨r, events, c, -, reached, now⟩ := first_interrupt
    have early : c.timers.value.now < 2 ^ 63 := by omega
    have stops (a : Act) := (stopped_only_by_overrun c a early).1 (pure ()) (.pure ())
    refine ⟨c, reached, now, ?_, ?_⟩
    · exact (stops _ _).mpr ⟨rfl, _, _, _, rfl, by rw [now]; decide⟩
    · intro p failed
      obtain ⟨-, _, _, _, ⟨⟩, past⟩ := (stops _ _).mp failed
      rw [now] at past
      exact absurd past (by decide)
  · intro script
    have affordable : Affordable 1 (.call (.receiveOrSleep 1) :: script) := by
      intro ticks value owner here
      obtain ⟨rfl, -, -⟩ : ticks = 2 ^ 63 ∧ value = 7 ∧ owner = 1 := by simpa [script] using here
      decide
    let c := (new 0 .zero (.full 1) 0 [script]).value
    have early : c.timers.value.now < 2 ^ 63 := by decide
    exact (stopped_only_by_overrun c (.call (.receiveOrSleep 1)) early).2 1 (by decide)
      (by decide) affordable

/-- After the first interrupt a task adds a timer for the largest number of ticks, and the machine
stops. -/
theorem addTimer_stops_core :
    ∃ c, Reachable c ∧ c.timers.value.now = 1 ∧ Word.max < Word.bound ∧
      (c.step (.call (.addTimer Word.max 7 1))).run.value = .error .overflow := by
  obtain ⟨r, events, c, -, reached, now⟩ := first_interrupt
  have past : Word.bound ≤ c.timers.value.now + Word.max := by
    rw [now]
    decide
  refine ⟨c, reached, now, by decide, ?_⟩
  rw [eval_step, eval_addTimer_of_past (c := { c with events := [] }) past]
  rfl

end Core

end Nucleus
