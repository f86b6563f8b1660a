import Nucleus.Frame.Allocator

/-!
# First fit

The search for a run of free frames, and the request that it answers.

* `searchFrom_least`: the search finds the lowest run that still fits, or there is none.
* `firstFit_eq_some`, `firstFit_eq_none`: the same for a whole window.
* `allocate_eq_ok`: what a granted request says about the frames.
* `free_mark`, `free_release`: which frames are free after some have changed hands.
-/

namespace Nucleus

namespace Bitmap
variable {b : Bitmap} {n : Nat}

/-- The `n` frames from `s` on are free. -/
def FreeRun (b : Bitmap) (s n : Nat) : Prop := ∀ f, s ≤ f → f < s + n → b.taken f = false

theorem FreeRun.succ {s : Nat} (h : b.FreeRun s n) (next : b.taken (s + n) = false) :
    b.FreeRun s (n + 1) := by
  intro f low high
  by_cases last : f = s + n
  · rw [last, next]
  · exact h f low (by omega)

/-- The run before `f` is too short, and starts where a search for a longer one is to start. -/
theorem searchFrom_least (left : Nat) : ∀ f run : Nat, run < n → run ≤ f →
    b.FreeRun (f - run) run →
    match b.searchFrom n left f run with
    | some s => f - run ≤ s ∧ s + n ≤ f + left ∧ b.FreeRun s n ∧
      ∀ s', f - run ≤ s' → s' < s → ¬ b.FreeRun s' n
    | none => ∀ s', f - run ≤ s' → s' + n ≤ f + left → ¬ b.FreeRun s' n := by
  induction left with
  | zero =>
    intro f run short _ _ s' low high
    omega
  | succ left ih =>
    intro f run short within free
    rw [searchFrom]
    cases taken : b.taken f with
    | true =>
      -- No run of `n` frames that starts at `f` or in the run before it can do without `f`.
      have blocked (s' : Nat) (low : f - run ≤ s') (high : s' ≤ f) : ¬ b.FreeRun s' n := by
        intro fits
        rw [fits f high (by omega)] at taken
        cases taken
      have later := ih (f + 1) 0 (by omega) (Nat.zero_le _) (by intro g; omega)
      rw [if_pos rfl]
      cases found : b.searchFrom n left (f + 1) 0 with
      | some s =>
        rw [found] at later
        obtain ⟨low, high, fits, least⟩ := later
        refine ⟨by omega, by omega, fits, fun s' low' before => ?_⟩
        by_cases early : s' ≤ f
        · exact blocked s' low' early
        · exact least s' (by omega) before
      | none =>
        rw [found] at later
        intro s' low' high'
        by_cases early : s' ≤ f
        · exact blocked s' low' early
        · exact later s' (by omega) (by omega)
    | false =>
      have longer : b.FreeRun (f - run) (run + 1) := by
        refine free.succ ?_
        rw [Nat.sub_add_cancel within, taken]
      rw [if_neg Bool.false_ne_true]
      by_cases enough : run + 1 = n
      · rw [if_pos enough]
        have start : f + 1 - n = f - run := by omega
        rw [start]
        refine ⟨Nat.le_refl _, by omega, enough ▸ longer, fun s' low' before => ?_⟩
        omega
      · rw [if_neg enough]
        have same : f + 1 - (run + 1) = f - run := by omega
        have later := ih (f + 1) (run + 1) (by omega) (by omega) (same ▸ longer)
        rw [same] at later
        have reach : f + 1 + left = f + (left + 1) := by omega
        rw [reach] at later
        exact later

/-- A run of `n` free frames inside `r` starts at `s`. -/
structure Fits (b : Bitmap) (r : Span) (n s : Nat) : Prop where
  first : r.first ≤ s
  stop : s + n ≤ r.stop
  free : b.FreeRun s n

variable {r : Span} {s : Nat}

theorem firstFit_least (positive : 0 < n) :
    match b.firstFit r n with
    | some s => b.Fits r n s ∧ ∀ s', b.Fits r n s' → s ≤ s'
    | none => ∀ s', ¬ b.Fits r n s' := by
  have search := b.searchFrom_least r.length r.first 0 positive (Nat.zero_le _) (by intro f; omega)
  rw [firstFit]
  cases found : b.searchFrom n r.length r.first 0 with
  | some s =>
    rw [found] at search
    obtain ⟨low, high, free, least⟩ := search
    simp only [Span.length] at high
    refine ⟨⟨low, by omega, free⟩, fun s' fits => ?_⟩
    by_cases before : s' < s
    · exact absurd fits.free (least s' fits.first before)
    · omega
  | none =>
    rw [found] at search
    intro s' fits
    have high := fits.stop
    have low := fits.first
    exact search s' low (by simp only [Span.length]; omega) fits.free

theorem firstFit_eq_some (positive : 0 < n) :
    b.firstFit r n = some s ↔ b.Fits r n s ∧ ∀ s', b.Fits r n s' → s ≤ s' := by
  have found := b.firstFit_least (r := r) positive
  constructor
  · intro h
    rw [h] at found
    exact found
  · rintro ⟨fits, least⟩
    cases h : b.firstFit r n with
    | none =>
      rw [h] at found
      exact absurd fits (found s)
    | some s' =>
      rw [h] at found
      rw [Nat.le_antisymm (found.2 s fits) (least s' found.1)]

theorem firstFit_eq_none (positive : 0 < n) :
    b.firstFit r n = none ↔ ∀ s, ¬ b.Fits r n s := by
  have found := b.firstFit_least (r := r) positive
  constructor
  · intro h
    rw [h] at found
    exact found
  · intro nowhere
    cases h : b.firstFit r n with
    | none => rfl
    | some s =>
      rw [h] at found
      exact absurd found.1 (nowhere s)

end Bitmap

namespace Frames
variable {fs fs' : Frames} {n f : Nat}

@[simp] theorem capacity_mark (fs : Frames) (start n : Nat) :
    (fs.mark start n).capacity = fs.capacity :=
  Bitmap.capacity_mark _ _ _

@[simp] theorem capacity_release (fs : Frames) (start n : Nat) :
    (fs.release start n).capacity = fs.capacity :=
  Bitmap.capacity_release _ _ _

theorem capacity_full (lines : Nat) : (full lines).capacity = 64 * lines := by
  rw [capacity, full, Bitmap.full, Bitmap.capacity, Array.size_replicate]

theorem isTaken_of_capacity_le (h : fs.capacity ≤ f) : fs.isTaken f = true :=
  Bitmap.taken_of_capacity_le h

/-- Whether `f` is one of the `n` frames from `start` on. -/
def among (start n f : Nat) : Bool := start ≤ f && f < Word.satAdd start n

theorem clamp_iff (known : f < fs.capacity) (start n : Nat) :
    (fs.clamp start n).first ≤ f ∧ f < (fs.clamp start n).stop ↔ among start n f = true := by
  simp only [clamp, among, Bool.and_eq_true, decide_eq_true_eq]
  omega

theorem lt_capacity_of_free (free : fs.isTaken f = false) : f < fs.capacity := by
  by_cases known : f < fs.capacity
  · exact known
  · rw [isTaken_of_capacity_le (Nat.le_of_not_lt known)] at free
    cases free

theorem free_mark {start : Nat} :
    (fs.mark start n).isTaken f = false ↔ fs.isTaken f = false ∧ among start n f = false := by
  by_cases known : f < fs.capacity
  · rw [isTaken, mark, Bitmap.taken_mark, Bool.or_eq_false_iff, decide_eq_false_iff_not,
      clamp_iff known, Bool.not_eq_true]
    rfl
  · have past := Nat.le_of_not_lt known
    rw [isTaken_of_capacity_le past, isTaken_of_capacity_le (by rw [capacity_mark]; exact past)]
    simp

theorem free_release {start : Nat} :
    (fs.release start n).isTaken f = false ↔
      f < fs.capacity ∧ (fs.isTaken f = false ∨ among start n f = true) := by
  by_cases known : f < fs.capacity
  · have here : ¬ fs.bitmap.capacity ≤ f := Nat.not_le_of_lt known
    rw [isTaken, release, Bitmap.taken_release, Bool.and_eq_false_iff, Bool.or_eq_false_iff,
      decide_eq_false_iff_not, Bool.not_eq_false', decide_eq_true_eq, clamp_iff known]
    simp only [known, here, isTaken, not_false_eq_true, true_and]
  · have past := Nat.le_of_not_lt known
    rw [isTaken_of_capacity_le (by rw [capacity_release]; exact past)]
    simp [known]

theorem value_allocate (fs : Frames) (n : Nat) :
    (fs.allocate n).value =
      if n = 0 then .error .emptyRequest
      else match fs.bitmap.firstFit fs.window n with
        | none => .error (.outOfMemory n)
        | some f => .ok (f, fs.mark f n) := by
  rw [allocate]
  split
  · rfl
  · cases fs.bitmap.firstFit fs.window n <;> rfl

/-- A request is granted with the lowest run of free frames in the window. -/
theorem allocate_eq_ok :
    (fs.allocate n).value = .ok (f, fs') ↔ 0 < n ∧ fs.bitmap.Fits fs.window n f ∧
      (∀ s, fs.bitmap.Fits fs.window n s → f ≤ s) ∧ fs' = fs.mark f n := by
  rw [value_allocate]
  by_cases empty : n = 0
  · simp [empty]
  · have positive := Nat.pos_of_ne_zero empty
    rw [if_neg empty]
    cases found : fs.bitmap.firstFit fs.window n with
    | none =>
      have nowhere := (Bitmap.firstFit_eq_none positive).mp found
      constructor
      · rintro ⟨⟩
      · rintro ⟨-, fits, -⟩
        exact absurd fits (nowhere f)
    | some s =>
      obtain ⟨fits, least⟩ := (Bitmap.firstFit_eq_some positive).mp found
      constructor
      · rintro ⟨⟩
        exact ⟨positive, fits, least, rfl⟩
      · rintro ⟨-, fits', least', rfl⟩
        rw [Nat.le_antisymm (least f fits') (least' s fits)]

end Frames

end Nucleus
