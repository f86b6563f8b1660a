import Nucleus.Proofs.Frame.FirstFit

/-!
# Serving

An allocator in use: runs are handed out and given back, and frames are set aside.

* `Served.within`: nothing is ever handed out that was not free at the start, or held already.
* `Served.exists_run`: every free frame of the window can come to be handed out.
-/

namespace Nucleus.Frames

/-- A run of frames: the first, and how many. -/
abbrev Run := Nat × Nat

def Run.has (r : Run) (f : Nat) : Prop := r.1 ≤ f ∧ f < r.1 + r.2

/-- What comes of `fs₀` while the runs `held` are out: an allocator, and the runs that are out. -/
inductive Served (fs₀ : Frames) (held : List Run) : Frames → List Run → Prop where
  | start : Served fs₀ held fs₀ held
  | allocate {fs fs' : Frames} {runs : List Run} {n f : Nat} : Served fs₀ held fs runs →
      (fs.allocate n).value = .ok (f, fs') → Served fs₀ held fs' ((f, n) :: runs)
  | release {fs : Frames} {runs : List Run} {r : Run} : Served fs₀ held fs runs → r ∈ runs →
      Served fs₀ held (fs.release r.1 r.2) (runs.erase r)
  | mark {fs : Frames} {runs : List Run} (start n : Nat) : Served fs₀ held fs runs →
      Served fs₀ held (fs.mark start n) runs

variable {fs₀ fs fs' : Frames} {held runs : List Run} {f n : Nat}

theorem has_of_among {start : Nat} (h : among start n f = true) : Run.has (start, n) f := by
  rw [among, Bool.and_eq_true, decide_eq_true_iff, decide_eq_true_iff, Word.satAdd] at h
  exact ⟨h.1, by omega⟩

theorem among_iff (small : f < Word.max) {start : Nat} :
    among start n f = true ↔ Run.has (start, n) f := by
  rw [among, Bool.and_eq_true, decide_eq_true_iff, decide_eq_true_iff, Word.satAdd, Run.has]
  omega

theorem among_one {s : Nat} (small : s < Word.max) : among s 1 f = true ↔ f = s := by
  rw [among, Bool.and_eq_true, decide_eq_true_iff, decide_eq_true_iff, Word.satAdd]
  omega

theorem Served.window_eq (served : Served fs₀ held fs runs) : fs.window = fs₀.window := by
  induction served with
  | start => rfl
  | allocate _ granted ih =>
    obtain ⟨-, -, -, rfl⟩ := allocate_eq_ok.mp granted
    exact ih
  | release _ _ ih => exact ih
  | mark _ _ _ ih => exact ih

/-- Nothing is handed out that was not held, or free in the window, at the start. -/
theorem Served.within {Q : Nat → Prop} (served : Served fs₀ held fs runs)
    (free : ∀ f, fs₀.window.contains f = true → fs₀.isTaken f = false → Q f)
    (out : ∀ r ∈ held, ∀ f, r.has f → Q f) :
    (∀ f, fs₀.window.contains f = true → fs.isTaken f = false → Q f) ∧
      ∀ r ∈ runs, ∀ f, r.has f → Q f := by
  induction served with
  | start => exact ⟨free, out⟩
  | @allocate fs fs' runs n f served granted ih =>
    obtain ⟨free, out⟩ := ih
    obtain ⟨-, fits, -, rfl⟩ := allocate_eq_ok.mp granted
    refine ⟨fun g here vacant => free g here (free_mark.mp vacant).1, fun r given g inside => ?_⟩
    rcases List.mem_cons.mp given with rfl | given
    · have low := fits.first
      have high := fits.stop
      rw [served.window_eq] at low high
      refine free g (Span.contains_iff.mpr ⟨?_, ?_⟩) (fits.free g inside.1 inside.2)
      · exact Nat.le_trans low inside.1
      · exact Nat.lt_of_lt_of_le inside.2 high
    · exact out r given g inside
  | release _ given ih =>
    obtain ⟨free, out⟩ := ih
    refine ⟨fun g here vacant => ?_, fun r still => out r (List.mem_of_mem_erase still)⟩
    rcases (free_release.mp vacant).2 with before | back
    · exact free g here before
    · exact out _ given g (has_of_among back)
  | mark _ _ _ ih => exact ⟨fun g here vacant => ih.1 g here (free_mark.mp vacant).1, ih.2⟩

/-- A request for one frame gets the lowest free one. -/
theorem allocate_one (here : fs.window.contains f = true) (free : fs.isTaken f = false)
    (least : ∀ g, fs.window.first ≤ g → g < f → fs.isTaken g = true) :
    (fs.allocate 1).value = .ok (f, fs.mark f 1) := by
  obtain ⟨low, high⟩ := Span.contains_iff.mp here
  refine allocate_eq_ok.mpr ⟨Nat.one_pos, ⟨low, high, ?_⟩, ?_, rfl⟩
  · intro g low' high'
    have same : g = f := by omega
    rw [same]
    exact free
  · intro s fits
    by_cases before : s < f
    · have taken := least s fits.first before
      have other : fs.isTaken s = false := fits.free s (Nat.le_refl s) (Nat.lt_succ_self s)
      rw [taken] at other
      cases other
    · exact Nat.le_of_not_lt before

theorem free_after_one {s : Nat} (small : s < Word.max) :
    (fs.mark s 1).isTaken f = false ↔ fs.isTaken f = false ∧ f ≠ s := by
  rw [free_mark, ← Bool.not_eq_true (among s 1 f), among_one small]

theorem taken_after_one {s : Nat} (small : s < Word.max) :
    (fs.mark s 1).isTaken f = true ↔ fs.isTaken f = true ∨ f = s := by
  have free : (fs.mark s 1).isTaken f = false ↔ fs.isTaken f = false ∧ f ≠ s :=
    free_after_one small
  rw [← Bool.not_eq_true, ← Bool.not_eq_true, ← not_or] at free
  exact Decidable.not_iff_not.mp free

theorem free_after_release_one {s : Nat} (small : s < Word.max) :
    (fs.release s 1).isTaken f = false ↔
      fs.isTaken f = false ∨ f < fs.capacity ∧ f = s := by
  rw [free_release, among_one small, and_or_left]
  exact or_congr_left (and_iff_right_of_imp lt_capacity_of_free)

/-- Asked for single frames, the allocator comes to every free frame of its window. -/
theorem Served.exists_run (served : Served fs₀ held fs runs) (free : fs.isTaken f = false)
    (here : fs.window.contains f = true) (small : f < Word.max) :
    ∃ fs' runs', Served fs₀ held fs' ((f, 1) :: runs') := by
  -- By induction on how far below `f` there may still be free frames.
  have reaches (k : Nat) : ∀ {fs : Frames} {runs : List Run}, Served fs₀ held fs runs →
      fs.isTaken f = false → fs.window.contains f = true →
      (∀ g, fs.window.first ≤ g → fs.isTaken g = false → f ≤ g + k) →
      ∃ fs' runs', Served fs₀ held fs' ((f, 1) :: runs') := by
    induction k with
    | zero =>
      intro fs runs served free here near
      have least (g : Nat) (low : fs.window.first ≤ g) (before : g < f) : fs.isTaken g = true := by
        cases vacant : fs.isTaken g with
        | true => rfl
        | false => exact absurd (near g low vacant) (Nat.not_le_of_lt before)
      exact ⟨_, _, .allocate served (allocate_one here free least)⟩
    | succ k ih =>
      intro fs runs served free here near
      by_cases next : ∃ g, fs.window.first ≤ g ∧ fs.isTaken g = false ∧ f = g + (k + 1)
      · obtain ⟨g, low, vacant, rfl⟩ := next
        have smaller : g < Word.max := by omega
        obtain ⟨-, high⟩ := Span.contains_iff.mp here
        have inside : fs.window.contains g = true := Span.contains_iff.mpr ⟨low, by omega⟩
        have least (g' : Nat) (low' : fs.window.first ≤ g') (before : g' < g) :
            fs.isTaken g' = true := by
          cases open' : fs.isTaken g' with
          | true => rfl
          | false =>
            have far := near g' low' open'
            omega
        refine ih (.allocate served (allocate_one inside vacant least)) ?_ here
          fun g' low' open' => ?_
        · exact (free_after_one smaller).mpr ⟨free, by omega⟩
        · obtain ⟨before, other⟩ := (free_after_one smaller).mp open'
          have far := near g' low' before
          omega
      · refine ih served free here fun g low vacant => ?_
        have far := near g low vacant
        by_cases meets : f = g + (k + 1)
        · exact absurd ⟨g, low, vacant, meets⟩ next
        · omega
  exact reaches f served free here fun g _ _ => by omega

end Nucleus.Frames
