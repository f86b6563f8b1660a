import Nucleus.Proofs.Task.Mailboxes
import Nucleus.Proofs.Task.Ticks

/-!
# Expiry

When timers fire. A timer that is added for a tick that is already over fires at the next one, so
each timer has one tick at which it expires, and that is the tick that takes it off the list.

* `ordered_insert`: the pending timers are kept in the order in which they fire.
* `due_eq_filter`, `later_eq_filter`: so those that are due are its first ones.
* `fire_eq_ok`: what firing them leaves behind.
* `Timed`: what timers can come to while timers are added and ticks go by.
* `kept_add`, `kept_tick`, `timed_kept`: the pending timers are those whose tick is still to come.
* `expires_tick`: a tick delivers the timers that expire with it, and only those.
* `turns_fire`: taking timers off the list one by one, new ones coming in, comes to the same.
-/

namespace Nucleus
open Platform

/-! ## The order of expiry -/

namespace Timer

/-- By timeout, among equal timeouts by value, and among equal values by owner. -/
def NoLater (a b : Timer) : Prop :=
  a.timeout < b.timeout ∨ a.timeout = b.timeout ∧
    (a.value < b.value ∨ a.value = b.value ∧ a.owner ≤ b.owner)

theorem NoLater.trans {a b c : Timer} (ab : a.NoLater b) (bc : b.NoLater c) : a.NoLater c := by
  simp only [NoLater, TaskId] at *
  omega

theorem NoLater.timeout_le {a b : Timer} (ab : a.NoLater b) : a.timeout ≤ b.timeout := by
  unfold NoLater at ab
  omega

theorem before_iff {a b : Timer} : a.before b = true ↔
    a.timeout < b.timeout ∨ a.timeout = b.timeout ∧
      (a.value < b.value ∨ a.value = b.value ∧
        (a.owner < b.owner ∨ a.owner = b.owner ∧ Ord.compare a.preemption b.preemption = .lt)) := by
  simp only [before, compare, decide_eq_true_eq, Ordering.then_eq_lt, Nat.compare_eq_lt,
    Nat.compare_eq_eq, Int.compare_eq_lt, Int.compare_eq_eq]

theorem noLater_of_before {a b : Timer} (h : a.before b = true) : a.NoLater b := by
  have first := before_iff.mp h
  simp only [NoLater, TaskId] at *
  omega

theorem noLater_of_not_before {a b : Timer} (h : ¬ a.before b = true) : b.NoLater a := by
  rw [before_iff] at h
  simp only [NoLater, TaskId] at *
  omega

theorem perm_insert (t : Timer) (us : List Timer) : (t.insert us).Perm (t :: us) := by
  induction us with
  | nil => exact .refl _
  | cons u us ih =>
    rw [insert]
    split
    · exact (ih.cons u).trans (.swap t u us)
    · exact .refl _

theorem ordered_insert (t : Timer) {us : List Timer} (ordered : us.Pairwise NoLater) :
    (t.insert us).Pairwise NoLater := by
  induction us with
  | nil => exact List.pairwise_singleton _ _
  | cons u us ih =>
    obtain ⟨first, rest⟩ := List.pairwise_cons.mp ordered
    rw [insert]
    split
    · next early =>
      refine List.pairwise_cons.mpr ⟨fun v here => ?_, ih rest⟩
      rcases List.mem_cons.mp ((perm_insert t us).mem_iff.mp here) with rfl | later
      · exact noLater_of_before early
      · exact first v later
    · next late =>
      refine List.pairwise_cons.mpr ⟨fun v here => ?_, ordered⟩
      have next := noLater_of_not_before late
      rcases List.mem_cons.mp here with rfl | later
      · exact next
      · exact next.trans (first v later)

/-- The timers of a list that are not the preemption timer. -/
def users (us : List Timer) : List Timer := us.filter fun t => !t.preemption

theorem users_insert_preempting (timeout : Nat) (owner : TaskId) (us : List Timer) :
    users ((preempting timeout owner).insert us) = users us := by
  induction us with
  | nil => rfl
  | cons u us ih =>
    rw [insert]
    split
    · simp only [users, List.filter_cons] at ih ⊢
      rw [ih]
    · rfl

end Timer

namespace Timers
variable {ts : Timers} {s : Scheduler}

theorem due_later_eq_filter (n : Nat) {us : List Timer} (ordered : us.Pairwise Timer.NoLater) :
    us.takeWhile (fun t => t.timeout ≤ n) = us.filter (fun t => t.timeout ≤ n) ∧
      us.dropWhile (fun t => t.timeout ≤ n) = us.filter (fun t => n < t.timeout) := by
  induction us with
  | nil => exact ⟨rfl, rfl⟩
  | cons u us ih =>
    obtain ⟨first, rest⟩ := List.pairwise_cons.mp ordered
    by_cases due : u.timeout ≤ n
    · have early : ¬ n < u.timeout := Nat.not_lt.mpr due
      simp [due, early, ih rest]
    · have late : n < u.timeout := Nat.lt_of_not_le due
      have all : ∀ v ∈ us, n < v.timeout := fun v here =>
        Nat.lt_of_lt_of_le late (first v here).timeout_le
      have none : us.filter (fun t => t.timeout ≤ n) = [] :=
        List.filter_eq_nil_iff.mpr fun v here => by simpa using all v here
      have same : us.filter (fun t => n < t.timeout) = us :=
        List.filter_eq_self.mpr fun v here => by simpa using all v here
      simp [due, late, none, same]

theorem due_eq_filter (ordered : ts.pending.Pairwise Timer.NoLater) :
    ts.due = ts.pending.filter fun t => t.timeout ≤ ts.now :=
  (due_later_eq_filter ts.now ordered).1

theorem later_eq_filter (ordered : ts.pending.Pairwise Timer.NoLater) :
    ts.later = ts.pending.filter fun t => ts.now < t.timeout :=
  (due_later_eq_filter ts.now ordered).2

/-! ## What fires -/

/-- Send the messages of expired timers, in the order of the list. -/
def sendAll (fired : List Timer) (s : Scheduler) : Scheduler :=
  fired.foldl (fun s t => (s.send t.owner t.message).value.2) s

theorem mailbox?_sendAll (fired : List Timer) (s : Scheduler) (id : TaskId) :
    (sendAll fired s).mailbox? id = (s.mailbox? id).map fun mail =>
      mail ++ (fired.filter fun t => t.owner = id).map Timer.message := by
  induction fired generalizing s with
  | nil => simp [sendAll]
  | cons t fired ih =>
    have later := ih (s.send t.owner t.message).value.2
    rw [s.mailbox?_send] at later
    refine Eq.trans later ?_
    by_cases here : id = t.owner
    · simp [here, Option.map_map, Function.comp_def]
    · simp [here, Ne.symm here]

/-- Of the timers of a list that fire, in whatever order, the user timers are sent. -/
theorem sent_of_fire (due : List Timer) : ∀ {ts : Timers} {s : Scheduler}
    {answer : Bool × Timers × Scheduler}, (fire due ts s).run.value = .ok answer →
      answer.2.2 = sendAll (Timer.users due) s := by
  induction due with
  | nil =>
    intro ts s answer fired
    cases fired
    rfl
  | cons t due ih =>
    intro ts s answer fired
    cases fire_cons_eq_ok fired with
    | inl armed =>
      obtain ⟨kind, -, _, later⟩ := armed
      have skipped : Timer.users (t :: due) = Timer.users due := by simp [Timer.users, kind]
      have sent := ih later
      rw [skipped]
      exact sent
    | inr user =>
      have first : Timer.users (t :: due) = t :: Timer.users due := by
        simp [Timer.users, user.1]
      rw [first]
      exact ih user.2

/-- After the timers of a list have fired, the user timers among them are sent, and nothing came in
but preemption timers for ticks to come. -/
theorem fire_eq_ok (due : List Timer) : ∀ {ts ts' : Timers} {s s' : Scheduler} {switch : Bool},
    ts.pending.Pairwise Timer.NoLater → (fire due ts s).run.value = .ok (switch, ts', s') →
    s' = sendAll (Timer.users due) s ∧ ts'.now = ts.now ∧
      ts'.pending.Pairwise Timer.NoLater ∧ Timer.users ts'.pending = Timer.users ts.pending ∧
      ∀ t ∈ ts'.pending, t ∈ ts.pending ∨ ts.now < t.timeout := by
  induction due with
  | nil =>
    intro ts ts' s s' switch ordered fired
    cases fired
    exact ⟨rfl, rfl, ordered, rfl, fun t here => .inl here⟩
  | cons t due ih =>
    intro ts ts' s s' switch ordered fired
    refine ⟨sent_of_fire _ fired, ?_⟩
    cases fire_cons_eq_ok fired with
    | inl armed =>
      obtain ⟨-, -, _, later⟩ := armed
      obtain ⟨-, now, ordered', users, rest⟩ := ih (Timer.ordered_insert _ ordered) later
      refine ⟨now, ordered', users.trans (Timer.users_insert_preempting _ _ _), fun u here => ?_⟩
      rcases rest u here with inside | late
      · rcases List.mem_cons.mp ((Timer.perm_insert _ _).mem_iff.mp inside) with rfl | old
        · exact .inr (Nat.lt_add_of_pos_right (by decide))
        · exact .inl old
      · exact .inr late
    | inr user => exact (ih ordered user.2).2

/-- The user timers that the next tick fires. -/
def firing (ts : Timers) : List Timer :=
  Timer.users { ts with now := ts.now + 1 }.due

theorem sent_of_tick {answer : Bool × Timers × Scheduler}
    (ticked : (ts.tick s).run.value = .ok answer) : answer.2.2 = sendAll ts.firing s := by
  rw [value_tick] at ticked
  cases counted : Word.add? ts.now 1 with
  | error p =>
    rw [counted] at ticked
    cases ticked
  | ok now =>
    obtain ⟨-, rfl⟩ := Word.add?_eq_ok.mp counted
    rw [counted] at ticked
    have sent := sent_of_fire _ ticked
    exact sent

/-! ## Runs -/

end Timers

/-- A user timer, and the tick at which it was added. -/
structure Alarm where
  timer : Timer
  since : Nat
deriving DecidableEq, Repr

/-- The tick at which a timer expires: its own, or the next one if that is over. -/
def Alarm.expiry (a : Alarm) : Nat := max a.timer.timeout (a.since + 1)

/-- The timers among `set` whose expiry satisfies `p`, each as often as it was added. -/
def Alarm.pick (set : List Alarm) (p : Nat → Bool) : List Timer :=
  (set.filter fun a => p a.expiry).map Alarm.timer

namespace Timers

/-- What timers can come to while timers are added and ticks go by: beside them all user timers
that were added so far, and what each tick has fired, the first tick first. In between anything may
happen to the tasks. -/
inductive Timed (main : TaskId) : List Alarm → List (List Timer) → Timers → Scheduler → Prop where
  | start (s : Scheduler) : Timed main [] [] (.new main) s
  | add {set : List Alarm} {fired : List (List Timer)} {ts : Timers} {s : Scheduler}
      (timeout : Nat) (value : Int) (owner : TaskId) : Timed main set fired ts s →
      Timed main (set ++ [⟨.user timeout value owner, ts.now⟩]) fired
        (ts.add (.user timeout value owner)) s
  | tick {set : List Alarm} {fired : List (List Timer)} {ts ts' : Timers} {s s' : Scheduler}
      {switch : Bool} : Timed main set fired ts s →
      (ts.tick s).run.value = .ok (switch, ts', s') → Timed main set (fired ++ [ts.firing]) ts' s'
  | meanwhile {set : List Alarm} {fired : List (List Timer)} {ts : Timers} {s : Scheduler}
      (s' : Scheduler) : Timed main set fired ts s → Timed main set fired ts s'

/-- Where the timers in `set` have been added and the ticks so far fired `fired`: each timer was
fired by the tick at which it expires, or else is pending and expires at a later one. -/
structure Kept (set : List Alarm) (fired : List (List Timer)) (ts : Timers) : Prop where
  ordered : ts.pending.Pairwise Timer.NoLater
  pending : (Timer.users ts.pending).Perm (Alarm.pick set (ts.now < ·))
  since : ∀ a ∈ set, a.since ≤ ts.now
  ticks : fired.length = ts.now
  past : ∀ (n : Nat) (us : List Timer), fired[n]? = some us →
    us.Perm (Alarm.pick set (· = n + 1)) ∧ us.Pairwise Timer.NoLater

/-- What a tick does. -/
structure Expires (set : List Alarm) (ts : Timers) (s : Scheduler) (ts' : Timers)
    (s' : Scheduler) : Prop where
  now : ts'.now = ts.now + 1
  expired : ts.firing.Perm (Alarm.pick set (· = ts'.now))
  ordered : ts.firing.Pairwise Timer.NoLater
  sent : s' = sendAll ts.firing s
  /-- Nothing stays overdue. -/
  later : ∀ t ∈ ts'.pending, ts'.now < t.timeout

variable {set : List Alarm} {fired : List (List Timer)} {ts : Timers} {s : Scheduler}

theorem pick_append (set : List Alarm) (a : Alarm) (p : Nat → Bool) :
    Alarm.pick (set ++ [a]) p = Alarm.pick set p ++ if p a.expiry then [a.timer] else [] := by
  rw [Alarm.pick, List.filter_append, List.map_append, List.filter_cons]
  split <;> rfl

theorem kept_add (kept : Kept set fired ts) (timeout : Nat) (value : Int) (owner : TaskId) :
    Kept (set ++ [⟨.user timeout value owner, ts.now⟩]) fired
      (ts.add (.user timeout value owner)) := by
  obtain ⟨ordered, pending, since, ticks, past⟩ := kept
  let a : Alarm := ⟨.user timeout value owner, ts.now⟩
  have fresh : ts.now < a.expiry :=
    Nat.lt_of_lt_of_le (Nat.lt_succ_self _) (Nat.le_max_right _ _)
  refine ⟨Timer.ordered_insert _ ordered, ?pending, fun b here => ?since, ticks,
    fun n us was => ?past⟩
  case pending =>
    have inserted : (Timer.users (a.timer.insert ts.pending)).Perm
        (a.timer :: Timer.users ts.pending) := (Timer.perm_insert a.timer ts.pending).filter _
    have picked : Alarm.pick (set ++ [a]) (ts.now < ·) =
        Alarm.pick set (ts.now < ·) ++ [a.timer] := by
      rw [pick_append, if_pos (decide_eq_true fresh)]
    refine inserted.trans ((pending.cons _).trans ?_)
    exact picked ▸ (List.perm_append_singleton _ _).symm
  case since =>
    rcases List.mem_append.mp here with old | new
    · exact since b old
    · rw [List.mem_singleton.mp new]
      exact Nat.le_refl _
  case past =>
    obtain ⟨before, -⟩ := List.getElem?_eq_some_iff.mp was
    -- that tick is over, and the new timer expires later
    have other : ¬ decide (a.expiry = n + 1) = true := by
      rw [decide_eq_true_eq]
      omega
    rw [pick_append, if_neg other, List.append_nil]
    exact past n us was

/-- The pending user timers that `p` picks are the alarms that `q` picks, if the two agree. -/
theorem perm_pick (kept : Kept set fired ts) {p : Timer → Bool} {q : Nat → Bool}
    (agree : ∀ a ∈ set, p a.timer = true ∧ ts.now < a.expiry ↔ q a.expiry = true) :
    (Timer.users (ts.pending.filter p)).Perm (Alarm.pick set q) := by
  have swapped : Timer.users (ts.pending.filter p) = (Timer.users ts.pending).filter p := by
    simp only [Timer.users, List.filter_filter, Bool.and_comm]
  have picked : (Alarm.pick set (ts.now < ·)).filter p = Alarm.pick set q := by
    rw [Alarm.pick, List.filter_map, List.filter_filter]
    refine congrArg _ (List.filter_congr fun a here => ?_)
    rw [Bool.eq_iff_iff, ← agree a here]
    simp
  rw [swapped, ← picked]
  exact kept.pending.filter p

theorem firing_eq_filter (kept : Kept set fired ts) :
    ts.firing = Timer.users (ts.pending.filter fun t => t.timeout ≤ ts.now + 1) := by
  have ordered : ({ ts with now := ts.now + 1 } : Timers).pending.Pairwise Timer.NoLater :=
    kept.ordered
  exact congrArg Timer.users (due_eq_filter ordered)

/-- What a tick that comes to an end leaves behind, for pending timers in their order. -/
theorem tick_eq_ok (ordered : ts.pending.Pairwise Timer.NoLater) {ts' : Timers} {s' : Scheduler}
    {switch : Bool} (ticked : (ts.tick s).run.value = .ok (switch, ts', s')) :
    ts'.now = ts.now + 1 ∧ s' = sendAll ts.firing s ∧ ts'.pending.Pairwise Timer.NoLater ∧
      Timer.users ts'.pending =
        Timer.users (ts.pending.filter fun t => ts.now + 1 < t.timeout) ∧
      ∀ t ∈ ts'.pending, ts.now + 1 < t.timeout := by
  rw [value_tick] at ticked
  cases counted : Word.add? ts.now 1 with
  | error p =>
    rw [counted] at ticked
    cases ticked
  | ok now =>
    obtain ⟨-, rfl⟩ := Word.add?_eq_ok.mp counted
    have ordered' : ({ ts with now := ts.now + 1 } : Timers).pending.Pairwise Timer.NoLater :=
      ordered
    rw [counted] at ticked
    simp only [Except.bind, later_eq_filter ordered'] at ticked
    obtain ⟨sent, next, kept, users, rest⟩ := fire_eq_ok _ (ordered.filter _) ticked
    refine ⟨next, sent, kept, users, fun t here => ?_⟩
    rcases rest t here with old | new
    · simpa using (List.mem_filter.mp old).2
    · exact new

/-- What the next tick fires is what expires then, in the order of expiry. -/
theorem perm_firing (kept : Kept set fired ts) :
    ts.firing.Perm (Alarm.pick set (· = ts.now + 1)) ∧ ts.firing.Pairwise Timer.NoLater := by
  rw [firing_eq_filter kept]
  refine ⟨perm_pick kept fun a here => ?_, (kept.ordered.filter _).filter _⟩
  have since := kept.since a here
  simp only [decide_eq_true_eq]
  rw [Alarm.expiry]
  omega

/-- A tick delivers the timers that expire with it, and only those. -/
theorem expires_tick (kept : Kept set fired ts) {ts' : Timers} {s' : Scheduler} {switch : Bool}
    (ticked : (ts.tick s).run.value = .ok (switch, ts', s')) : Expires set ts s ts' s' := by
  obtain ⟨now, sent, -, -, later⟩ := tick_eq_ok kept.ordered ticked
  obtain ⟨expired, ordered⟩ := perm_firing kept
  exact ⟨now, now ▸ expired, ordered, sent, now ▸ later⟩

theorem kept_tick (kept : Kept set fired ts) {ts' : Timers} {s' : Scheduler} {switch : Bool}
    (ticked : (ts.tick s).run.value = .ok (switch, ts', s')) :
    Kept set (fired ++ [ts.firing]) ts' := by
  obtain ⟨now, -, ordered, users, -⟩ := tick_eq_ok kept.ordered ticked
  refine ⟨ordered, ?pending, fun a here => ?since, ?ticks, fun n us was => ?past⟩
  case pending =>
    rw [users, now]
    refine perm_pick kept fun a here => ?_
    have since := kept.since a here
    simp only [decide_eq_true_eq]
    rw [Alarm.expiry]
    omega
  case since => exact Nat.le_trans (kept.since a here) (by omega)
  case ticks => rw [List.length_append, kept.ticks, now, List.length_singleton]
  case past =>
    rcases Nat.lt_or_ge n fired.length with before | last
    · rw [List.getElem?_append_left before] at was
      exact kept.past n us was
    · obtain ⟨within, -⟩ := List.getElem?_eq_some_iff.mp was
      rw [List.length_append, List.length_singleton] at within
      obtain rfl : n = fired.length := Nat.le_antisymm (Nat.lt_succ_iff.mp within) last
      rw [List.getElem?_append_right last, Nat.sub_self] at was
      cases was
      rw [kept.ticks]
      exact perm_firing kept

theorem timed_kept {main : TaskId} (timed : Timed main set fired ts s) : Kept set fired ts := by
  induction timed with
  | start s =>
    refine ⟨List.pairwise_singleton _ _, .refl _, ?since, rfl, ?past⟩
    case since =>
      intro a here
      cases here
    case past =>
      intro n us was
      cases was
  | add timeout value owner _ ih => exact kept_add ih timeout value owner
  | tick _ ticked ih => exact kept_tick ih ticked
  | meanwhile _ _ ih => exact ih

/-! ## The loop of a tick -/

/-- One turn of the loop: the first pending timer, if it is due, is taken off the list and fired.
What it arms joins the list that the next turn looks at. -/
def turn (ts : Timers) (s : Scheduler) : Option (Except Panic (Bool × Timers × Scheduler)) :=
  match ts.pending with
  | [] => none
  | t :: rest =>
    if ts.now < t.timeout then none
    else if t.preemption then
      some <| (Word.add? ts.now preemptionPeriod).map fun timeout =>
        (true, { ts with pending := rest }.add (.preempting timeout t.owner), s)
    else some (.ok (false, { ts with pending := rest }, (s.send t.owner t.message).value.2))

/-- The loop ends after `n` turns, and comes to an answer or a panic. -/
inductive Turns : Nat → Timers → Scheduler → Except Panic (Bool × Timers × Scheduler) → Prop where
  | stop {ts : Timers} {s : Scheduler} : ts.turn s = none → Turns 0 ts s (.ok (false, ts, s))
  | fail {ts : Timers} {s : Scheduler} {p : Panic} : ts.turn s = some (.error p) →
      Turns 1 ts s (.error p)
  | turn {n : Nat} {ts ts' : Timers} {s s' : Scheduler} {switch : Bool}
      {r : Except Panic (Bool × Timers × Scheduler)} :
      ts.turn s = some (.ok (switch, ts', s')) → Turns n ts' s' r →
      Turns (n + 1) ts s (r.map fun r => (switch || r.1, r.2))

/-- A timer for a later tick goes behind those that are due. -/
theorem insert_append {n : Nat} {t : Timer} (late : n < t.timeout) {due : List Timer}
    (early : ∀ u ∈ due, u.timeout ≤ n) (rest : List Timer) :
    t.insert (due ++ rest) = due ++ t.insert rest := by
  induction due with
  | nil => rfl
  | cons u due ih =>
    have first : u.before t = true :=
      Timer.before_iff.mpr (.inl (Nat.lt_of_le_of_lt (early u (.head due)) late))
    rw [List.cons_append, Timer.insert, if_pos first, ih fun v here => early v (.tail u here)]
    rfl

variable {t : Timer} {rest : List Timer}

theorem turn_user (due : t.timeout ≤ ts.now) (user : t.preemption = false) :
    turn { ts with pending := t :: rest } s =
      some (.ok (false, { ts with pending := rest }, (s.send t.owner t.message).value.2)) := by
  have now : ¬ ts.now < t.timeout := Nat.not_lt.mpr due
  simp [turn, now, user]

theorem turn_preemption (due : t.timeout ≤ ts.now) (preempts : t.preemption = true) :
    turn { ts with pending := t :: rest } s =
      some ((Word.add? ts.now preemptionPeriod).map fun timeout =>
        (true, { ts with pending := rest }.add (.preempting timeout t.owner), s)) := by
  have now : ¬ ts.now < t.timeout := Nat.not_lt.mpr due
  simp [turn, now, preempts]

theorem turn_eq_none (late : ∀ t ∈ ts.pending, ts.now < t.timeout) : ts.turn s = none := by
  cases listed : ts.pending with
  | nil => simp [turn, listed]
  | cons t rest =>
    have first := late t (listed ▸ .head rest)
    simp [turn, listed, first]

/-- Though it arms timers on its way, the loop takes no more turns than timers were due. -/
theorem turns_fire (due : List Timer) : ∀ (ts : Timers) (s : Scheduler),
    (∀ t ∈ due, t.timeout ≤ ts.now) → (∀ t ∈ ts.pending, ts.now < t.timeout) →
    ∃ n, n ≤ due.length ∧
      Turns n { ts with pending := due ++ ts.pending } s (fire due ts s).run.value := by
  induction due with
  | nil => exact fun ts s _ late => ⟨0, Nat.le_refl _, .stop (turn_eq_none late)⟩
  | cons t due ih =>
    intro ts s early late
    have now : t.timeout ≤ ts.now := early t (.head due)
    have early' : ∀ u ∈ due, u.timeout ≤ ts.now := fun u here => early u (.tail t here)
    cases kind : t.preemption with
    | false =>
      obtain ⟨n, few, turns⟩ := ih ts (s.send t.owner t.message).value.2 early' late
      have goesOn := Turns.turn (turn_user now kind) turns
      rw [fire_user kind]
      refine ⟨n + 1, Nat.succ_le_succ few, ?_⟩
      cases fired : (fire due ts (s.send t.owner t.message).value.2).run.value <;>
        rw [fired] at goesOn <;> exact goesOn
    | true =>
      have taken : turn { ts with pending := t :: (due ++ ts.pending) } s =
          some ((Word.add? ts.now preemptionPeriod).map fun timeout =>
            (true, { ts with pending := due ++ ts.pending }.add (.preempting timeout t.owner),
              s)) := turn_preemption now kind
      rw [fire_preemption kind]
      cases armed : Word.add? ts.now preemptionPeriod with
      | error p =>
        rw [armed] at taken
        exact ⟨1, Nat.succ_le_succ (Nat.zero_le _), .fail taken⟩
      | ok timeout =>
        obtain ⟨-, rfl⟩ := Word.add?_eq_ok.mp armed
        have ahead : ts.now < ts.now + preemptionPeriod := Nat.lt_add_of_pos_right (by decide)
        let again : Timer := .preempting (ts.now + preemptionPeriod) t.owner
        have late' : ∀ u ∈ again.insert ts.pending, ts.now < u.timeout := by
          intro u here
          rcases List.mem_cons.mp ((Timer.perm_insert _ _).mem_iff.mp here) with rfl | old
          · exact ahead
          · exact late u old
        obtain ⟨n, few, turns⟩ := ih (ts.add again) s early' late'
        -- what is armed again comes behind all that is due, so the next turn finds the rest first
        have behind : again.insert (due ++ ts.pending) = due ++ again.insert ts.pending :=
          insert_append (t := again) ahead early' ts.pending
        rw [armed] at taken
        simp only [Except.map, add] at taken
        rw [behind] at taken
        have goesOn := Turns.turn taken turns
        simp only [Bool.true_or] at goesOn
        exact ⟨n + 1, Nat.succ_le_succ few, goesOn⟩

theorem turns_tick (kept : Kept set fired ts) (s : Scheduler) (counts : ts.now + 1 < Word.bound) :
    ∃ n, n ≤ ts.pending.length ∧
      Turns n { ts with now := ts.now + 1 } s (ts.tick s).run.value := by
  let ts' : Timers := { ts with now := ts.now + 1 }
  have parts : ts'.due ++ ts'.later = ts.pending := List.takeWhile_append_dropWhile
  have ordered : ts'.pending.Pairwise Timer.NoLater := kept.ordered
  obtain ⟨n, few, turns⟩ := turns_fire ts'.due { ts' with pending := ts'.later } s
    (fun t here => by
      rw [due_eq_filter ordered] at here
      simpa using (List.mem_filter.mp here).2)
    (fun t here => by
      rw [later_eq_filter ordered] at here
      simpa using (List.mem_filter.mp here).2)
  have counted : Word.add? ts.now 1 = .ok (ts.now + 1) := Word.add?_eq_ok.mpr ⟨counts, rfl⟩
  have few' : ts'.due.length ≤ ts.pending.length := by
    rw [← parts, List.length_append]
    exact Nat.le_add_right _ _
  refine ⟨n, Nat.le_trans few few', ?_⟩
  rw [value_tick, counted]
  simp only [parts] at turns
  exact turns

end Timers

end Nucleus
