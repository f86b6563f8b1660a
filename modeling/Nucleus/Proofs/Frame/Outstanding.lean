import Nucleus.Proofs.Frame.Serving

/-!
# Outstanding runs

An allocator through its whole life: runs are handed out and come back, frames are set aside by hand
and the window moves, in any order.

* `History`: what can become of an allocator, with the runs that are out and the ranges that were
  ever set aside.
* `Accounted`: a frame that nobody set aside is taken if it was at the start or a run that is out
  has it, and never for two reasons.
* `accounted_history`: this holds all along.
* `outstanding_runs_apart`: so no frame is ever out twice, and every frame comes back.
-/

namespace Nucleus.Frames

/-- What can become of `fs₀`: the allocator, the runs that are out, and the ranges that were set
aside. Only what is out comes back. -/
inductive History (fs₀ : Frames) : Frames → List Run → List Run → Prop where
  | start : History fs₀ fs₀ [] []
  | allocate {fs fs' : Frames} {out named : List Run} {n f : Nat} : History fs₀ fs out named →
      (fs.allocate n).value = .ok (f, fs') → History fs₀ fs' ((f, n) :: out) named
  | release {fs : Frames} {out named : List Run} {r : Run} : History fs₀ fs out named → r ∈ out →
      History fs₀ (fs.release r.1 r.2) (out.erase r) named
  | mark {fs : Frames} {out named : List Run} (start n : Nat) : History fs₀ fs out named →
      History fs₀ (fs.mark start n) out ((start, n) :: named)
  | restrict {fs fs' : Frames} {out named : List Run} {first stop : Nat} :
      History fs₀ fs out named → fs.restrict first stop = .ok fs' → History fs₀ fs' out named

/-- No frame is in both runs. -/
def Run.Apart (r r' : Run) : Prop := ∀ f, r.has f → ¬ r'.has f

/-- Frame `f` is in none of the runs. -/
def Unnamed (named : List Run) (f : Nat) : Prop := ∀ r ∈ named, ¬ r.has f

/-- The frames that are taken in `fs` and were not in `fs₀` are those of the runs that are out,
where nobody set frames aside. -/
structure Accounted (fs₀ fs : Frames) (out named : List Run) : Prop where
  capacity : fs.capacity = fs₀.capacity
  apart : out.Pairwise Run.Apart
  known : ∀ r ∈ out, ∀ f, r.has f → f < fs₀.capacity
  taken : ∀ r ∈ out, ∀ f, r.has f → fs.isTaken f = true
  fresh : ∀ r ∈ out, ∀ f, r.has f → Unnamed named f → fs₀.isTaken f = false
  free_iff : ∀ f, Unnamed named f →
    (fs.isTaken f = false ↔ fs₀.isTaken f = false ∧ ∀ r ∈ out, ¬ r.has f)

variable {fs₀ fs fs' : Frames} {out named : List Run} {r r' : Run} {f n start : Nat}

theorem Run.Apart.symm (h : r.Apart r') : r'.Apart r := fun f there here => h f here there

theorem unnamed_cons : Unnamed (r :: named) f ↔ ¬ r.has f ∧ Unnamed named f :=
  List.forall_mem_cons

/-- A run that is out has no frame in common with the others. -/
theorem Accounted.apart_of_erase (acc : Accounted fs₀ fs out named) (given : r ∈ out)
    (other : r' ∈ out.erase r) : r.Apart r' := by
  have first : (r :: out.erase r).Pairwise Run.Apart :=
    ((List.perm_cons_erase given).pairwise_iff fun h => h.symm).mp acc.apart
  exact (List.pairwise_cons.mp first).1 r' other

theorem free_of_fits (fits : fs.bitmap.Fits fs.window n start) (here : Run.has (start, n) f) :
    fs.isTaken f = false :=
  fits.free f here.1 here.2

theorem accounted_start (fs : Frames) : Accounted fs fs [] [] where
  capacity := rfl
  apart := .nil
  known r none := by cases none
  taken r none := by cases none
  fresh r none := by cases none
  free_iff f _ := by simp

theorem accounted_allocate (acc : Accounted fs₀ fs out named) (small : fs₀.capacity ≤ Word.max)
    (granted : (fs.allocate n).value = .ok (f, fs')) :
    Accounted fs₀ fs' ((f, n) :: out) named := by
  obtain ⟨-, fits, -, rfl⟩ := allocate_eq_ok.mp granted
  have free {g : Nat} (here : Run.has (f, n) g) : fs.isTaken g = false := free_of_fits fits here
  have known {g : Nat} (here : Run.has (f, n) g) : g < fs₀.capacity := by
    rw [← acc.capacity]
    exact lt_capacity_of_free (free here)
  have vacant {g : Nat} : (fs.mark f n).isTaken g = false ↔
      fs.isTaken g = false ∧ ¬ Run.has (f, n) g := by
    rw [free_mark]
    refine and_congr_right fun before => ?_
    have word : g < Word.max := by
      have below := lt_capacity_of_free before
      rw [acc.capacity] at below
      exact Nat.lt_of_lt_of_le below small
    rw [← among_iff word, Bool.not_eq_true]
  refine ⟨(capacity_mark ..).trans acc.capacity, ?apart, ?known, ?taken, ?fresh, fun g out => ?free⟩
  case apart =>
    refine List.pairwise_cons.mpr ⟨fun r given g here there => ?_, acc.apart⟩
    have taken := acc.taken r given g there
    rw [free here] at taken
    cases taken
  case known => exact List.forall_mem_cons.mpr ⟨fun g here => known here, acc.known⟩
  case taken =>
    refine List.forall_mem_cons.mpr ⟨fun g here => ?_, fun r given g here => ?_⟩
    · rw [← Bool.not_eq_false, vacant]
      exact fun h => h.2 here
    · rw [← Bool.not_eq_false, vacant, acc.taken r given g here]
      exact fun h => by cases h.1
  case fresh =>
    refine List.forall_mem_cons.mpr ⟨fun g here unnamed => ?_, acc.fresh⟩
    exact ((acc.free_iff g unnamed).mp (free here)).1
  case free =>
    rw [vacant, acc.free_iff g out, List.forall_mem_cons, and_assoc]
    exact and_congr_right fun _ => and_comm

theorem accounted_release (acc : Accounted fs₀ fs out named) (small : fs₀.capacity ≤ Word.max)
    (given : r ∈ out) : Accounted fs₀ (fs.release r.1 r.2) (out.erase r) named := by
  have vacant {f : Nat} (known : f < fs₀.capacity) : (fs.release r.1 r.2).isTaken f = false ↔
      fs.isTaken f = false ∨ r.has f := by
    rw [free_release, acc.capacity, among_iff (Nat.lt_of_lt_of_le known small)]
    exact and_iff_right known
  have left {r' : Run} (still : r' ∈ out.erase r) : r' ∈ out := List.mem_of_mem_erase still
  refine ⟨(capacity_release ..).trans acc.capacity, acc.apart.sublist List.erase_sublist,
    fun r' still => acc.known r' (left still), fun r' still f there => ?taken,
    fun r' still => acc.fresh r' (left still), fun f unnamed => ?free⟩
  case taken =>
    rw [← Bool.not_eq_false, vacant (acc.known r' (left still) f there)]
    rintro (free | here)
    · rw [acc.taken r' (left still) f there] at free
      cases free
    · exact acc.apart_of_erase given still f here there
  case free =>
    by_cases known : f < fs₀.capacity
    · rw [vacant known, acc.free_iff f unnamed]
      constructor
      · rintro (⟨free, away⟩ | here)
        · exact ⟨free, fun r' still => away r' (left still)⟩
        · refine ⟨acc.fresh r given f here unnamed, fun r' still => ?_⟩
          exact acc.apart_of_erase given still f here
      · rintro ⟨free, away⟩
        by_cases here : r.has f
        · exact .inr here
        · refine .inl ⟨free, fun r' given' => ?_⟩
          by_cases same : r' = r
          · rw [same]
            exact here
          · exact away r' ((List.mem_erase_of_ne same).mpr given')
    · have past := Nat.le_of_not_lt known
      rw [isTaken_of_capacity_le (by rw [capacity_release, acc.capacity]; exact past),
        isTaken_of_capacity_le past]
      simp

theorem accounted_mark (acc : Accounted fs₀ fs out named) (start n : Nat) :
    Accounted fs₀ (fs.mark start n) out ((start, n) :: named) := by
  refine ⟨(capacity_mark ..).trans acc.capacity, acc.apart, acc.known, fun r given f here => ?taken,
    fun r given f here unnamed => acc.fresh r given f here (unnamed_cons.mp unnamed).2,
    fun f unnamed => ?free⟩
  case taken =>
    rw [← Bool.not_eq_false, free_mark, acc.taken r given f here]
    exact fun h => by cases h.1
  case free =>
    obtain ⟨aside, unnamed⟩ := unnamed_cons.mp unnamed
    have other : among start n f = false := by
      rw [← Bool.not_eq_true]
      exact fun h => aside (has_of_among h)
    rw [free_mark, and_iff_left other]
    exact acc.free_iff f unnamed

theorem accounted_restrict (acc : Accounted fs₀ fs out named) {first stop : Nat}
    (moved : fs.restrict first stop = .ok fs') : Accounted fs₀ fs' out named := by
  simp only [restrict] at moved
  split at moved
  · cases moved
    exact ⟨acc.capacity, acc.apart, acc.known, acc.taken, acc.fresh, acc.free_iff⟩
  · cases moved

theorem accounted_history (small : fs₀.capacity ≤ Word.max)
    (history : History fs₀ fs out named) : Accounted fs₀ fs out named := by
  induction history with
  | start => exact accounted_start fs₀
  | allocate _ granted ih => exact accounted_allocate ih small granted
  | release _ given ih => exact accounted_release ih small given
  | mark start n _ ih => exact accounted_mark ih start n
  | restrict _ moved ih => exact accounted_restrict ih moved

/-- **Runs that are out never overlap.** Whatever was asked of an allocator, no frame is in two of
the runs that are out and each of them is taken; a run is only ever handed out from free frames of
the window; and once all are back, every frame that nobody set aside is as it was at the start. -/
theorem outstanding_runs_apart (fs₀ : Frames) (small : fs₀.capacity ≤ Word.max) (fs : Frames)
    (out named : List Run) (history : History fs₀ fs out named) :
    out.Pairwise Run.Apart ∧
    (∀ r ∈ out, ∀ f, r.has f → fs.isTaken f = true) ∧
    (∀ n f fs', (fs.allocate n).value = .ok (f, fs') → ∀ g, Run.has (f, n) g →
      fs.window.contains g = true ∧ fs.isTaken g = false) ∧
    (out = [] → ∀ f, Unnamed named f → fs.isTaken f = fs₀.isTaken f) := by
  have acc := accounted_history small history
  refine ⟨acc.apart, acc.taken, fun n f fs' granted g here => ?served, fun back f unnamed => ?back⟩
  case served =>
    obtain ⟨-, fits, -, -⟩ := allocate_eq_ok.mp granted
    refine ⟨Span.contains_iff.mpr ⟨?_, ?_⟩, free_of_fits fits here⟩
    · exact Nat.le_trans fits.first here.1
    · exact Nat.lt_of_lt_of_le here.2 fits.stop
  case back =>
    have same := acc.free_iff f unnamed
    subst back
    cases start : fs₀.isTaken f with
    | false => exact same.mpr ⟨start, fun r none => by cases none⟩
    | true =>
      rw [← Bool.not_eq_false, same, start]
      exact fun h => by cases h.1

/-- A run across a line of the bitmap goes out, a part of it is set aside, the window moves and a
second run goes out beside it; then both come back. -/
theorem outstanding_runs_return :
    let fs₀ := (Frames.full 2).release 60 20
    let fs₁ := fs₀.mark 60 10
    let fs₂ : Frames := { fs₁.mark 65 2 with window := ⟨70, 128⟩ }
    let fs₃ := fs₂.mark 70 3
    let fs₄ := (fs₃.release 60 10).release 70 3
    fs₀.capacity ≤ Word.max ∧ History fs₀ fs₃ [(70, 3), (60, 10)] [(65, 2)] ∧
      Run.Apart (70, 3) (60, 10) ∧ fs₃.isTaken 72 = true ∧ fs₀.isTaken 72 = false ∧
      History fs₀ fs₄ [] [(65, 2)] ∧ fs₄.isTaken 72 = fs₀.isTaken 72 := by
  have first : (((Frames.full 2).release 60 20).allocate 10).value =
      .ok (60, ((Frames.full 2).release 60 20).mark 60 10) := by rfl
  have moved : ((((Frames.full 2).release 60 20).mark 60 10).mark 65 2).restrict 70 200 =
      .ok { (((Frames.full 2).release 60 20).mark 60 10).mark 65 2 with window := ⟨70, 128⟩ } := by
    rfl
  have second : ((Frames.mk (((Frames.full 2).release 60 20).mark 60 10 |>.mark 65 2).bitmap
      ⟨70, 128⟩).allocate 3).value = .ok (70, (Frames.mk
        (((Frames.full 2).release 60 20).mark 60 10 |>.mark 65 2).bitmap ⟨70, 128⟩).mark 70 3) := by
    rfl
  intro fs₀ fs₁ fs₂ fs₃ fs₄
  have small : fs₀.capacity ≤ Word.max := by decide
  have both : History fs₀ fs₃ [(70, 3), (60, 10)] [(65, 2)] :=
    .allocate (.restrict (.mark 65 2 (.allocate .start first)) moved) second
  have back : History fs₀ fs₄ [] [(65, 2)] :=
    .release (r := (70, 3)) (.release (r := (60, 10)) both (by decide)) (by decide)
  have during := outstanding_runs_apart fs₀ small fs₃ _ _ both
  have after := outstanding_runs_apart fs₀ small fs₄ _ _ back
  refine ⟨small, both, (List.pairwise_cons.mp during.1).1 _ (.head _),
    during.2.1 (70, 3) (.head _) 72 (by simp [Run.has]), by decide, back, ?_⟩
  refine after.2.2.2 rfl 72 fun r named => ?_
  rw [List.mem_singleton.mp named]
  simp [Run.has]

end Nucleus.Frames
