import Nucleus.Proofs.Frame.FirstFit

/-!
# The scan

A request served frame by frame: read one bit after the other, start again behind the first frame
that is taken, and set the bits of the run in the end. Each sum has to fit a machine word and each
bit has to lie in a line of the bitmap.

* `Bitmap.scan`, `Frames.serve`: the search and the whole request, with all that could go wrong.
* `stretch_spec`: one attempt ends at a taken frame, at the end of the window, or with a run.
* `scan_eq`: no start that the scan skips would have served, so it comes to the first fit.
* `ext_taken`: a bitmap is the set of its taken frames.
* `allocate_exact_first_fit`: nothing goes wrong, and the answer is the first fit.
-/

namespace Nucleus

/-- What could go wrong on machine words. -/
inductive Misstep where
  /-- A sum left the 64 bits. -/
  | overflow
  /-- The bitmap has no such line. -/
  | missingLine
deriving DecidableEq, Repr

/-- A sum that has to fit a word. -/
def Word.step (a b : Nat) : Except Misstep Nat :=
  if a + b < bound then .ok (a + b) else .error .overflow

theorem Word.step_of_le {a b c : Nat} (fits : a + b ≤ c) (word : c ≤ max) :
    step a b = .ok (a + b) := by
  have small : a + b < bound := by
    simp only [max, bound] at *
    omega
  simp [step, small]

namespace Bitmap

/-- The bit of frame `f`. -/
def bit? (b : Bitmap) (f : Nat) : Except Misstep Bool :=
  match b.lines[f / 64]? with
  | some w => .ok (bit w (f % 64))
  | none => .error .missingLine

/-- Set the bit of frame `f`. -/
def setBit? (b : Bitmap) (f : Nat) : Except Misstep Bitmap :=
  match b.lines[f / 64]? with
  | some w => .ok ⟨b.lines.setIfInBounds (f / 64) (w ||| 1 <<< (f % 64).toUInt64)⟩
  | none => .error .missingLine

/-- Set the bits of the `n` frames from `f` on. -/
def setBits (b : Bitmap) : (n f : Nat) → Except Misstep Bitmap
  | 0, _ => pure b
  | n + 1, f => do (← b.setBit? f).setBits n (f + 1)

/-- What an attempt to find a run from one frame on comes to. -/
inductive Stretch where
  /-- Every frame of the run is free. -/
  | whole
  /-- The window ends before the run does. -/
  | cut
  /-- The frame `i` places on is taken. -/
  | blocked (i : Nat)

/-- Read the bits of a run from `start` on. The first `i` frames are free, `left` are to follow. -/
def stretch (b : Bitmap) (stop start : Nat) : (left i : Nat) → Except Misstep Stretch
  | 0, _ => pure .whole
  | left + 1, i => do
    let f ← Word.step start i
    if stop ≤ f then pure .cut
    else if ← b.bit? f then pure (.blocked i)
    else b.stretch stop start left (← Word.step i 1)

theorem lt_of_blocked {b : Bitmap} {stop start left i j : Nat}
    (found : b.stretch stop start left i = .ok (.blocked j)) : start + j < stop := by
  induction left generalizing i with
  | zero => cases found
  | succ left ih =>
    simp only [stretch, Word.step, bind, Except.bind] at found
    split at found
    · cases found
    · next f sum =>
      split at sum <;> cases sum
      split at found
      · cases found
      · next inside =>
        split at found
        · cases found
        · split at found
          · cases found
            omega
          · split at found
            · cases found
            · exact ih found

/-- Look for a run of `n` free frames before `stop`, from `start` on. No run can include a frame
that is taken, so the search goes on behind it. -/
def scan (b : Bitmap) (stop n start : Nat) : Except Misstep (Option Nat) :=
  match _ : b.stretch stop start n 0 with
  | .error e => .error e
  | .ok .whole => .ok (some start)
  | .ok .cut => .ok none
  | .ok (.blocked i) =>
    match Word.step i 1 with
    | .error e => .error e
    | .ok _ =>
      match Word.step start (i + 1) with
      | .error e => .error e
      | .ok _ => b.scan stop n (start + (i + 1))
termination_by stop - start
decreasing_by
  have inside := lt_of_blocked ‹_›
  omega

end Bitmap

/-- Serve a request for `n` frames: the answer, and the frames as they are then. -/
def Frames.serve (fs : Frames) (n : Nat) : Except Misstep (Except AllocError Nat × Frames) :=
  if n = 0 then pure (.error .emptyRequest, fs)
  else do
    match ← fs.bitmap.scan fs.window.stop n fs.window.first with
    | none => pure (.error (.outOfMemory n), fs)
    | some f =>
      let r := fs.clamp f n
      pure (.ok f, { fs with bitmap := ← fs.bitmap.setBits (r.stop - r.first) r.first })

namespace Bitmap
variable {b b' : Bitmap} {stop start n f g : Nat}

/-! ## Single bits -/

/-- A bitmap is the set of its taken frames. -/
theorem ext_taken (size : b'.lines.size = b.lines.size) (same : ∀ f, b'.taken f = b.taken f) :
    b' = b := by
  have lines : b'.lines = b.lines := by
    apply Array.ext size
    intro j here' here
    apply UInt64.toBitVec_inj.mp
    apply BitVec.eq_of_getLsbD_eq
    intro i small
    have line : (64 * j + i) / 64 = j := by omega
    have place : (64 * j + i) % 64 = i := by omega
    have bits := same (64 * j + i)
    simpa [taken, line, place, here', here, bit_eq _ small] using bits
  cases b
  cases b'
  simpa using lines

/-- A bitmap is the set of its free frames, as far as it goes. -/
theorem eq_of_free_iff (capacity : b'.capacity = b.capacity)
    (same : ∀ f, b'.taken f = false ↔ b.taken f = false) : b' = b := by
  apply ext_taken
  · exact Nat.mul_left_cancel (by decide) capacity
  · intro f
    cases here : b.taken f with
    | false => exact (same f).mpr here
    | true =>
      apply Bool.of_not_eq_false
      intro free
      rw [(same f).mp free] at here
      cases here

theorem bit?_eq (known : f < b.capacity) : b.bit? f = .ok (b.taken f) := by
  have line : f / 64 < b.lines.size := by
    simp only [capacity] at known
    omega
  simp [bit?, taken, line]

theorem bit_one {i j : Nat} (small : i < 64) (small' : j < 64) :
    bit (1 <<< i.toUInt64) j = decide (i = j) := by
  have word : i.toUInt64.toNat = i := by simp [Nat.toUInt64, UInt64.toNat_ofNat']; omega
  have value : (1 <<< i.toUInt64 : UInt64).toBitVec = 1#64 <<< i := by
    apply BitVec.eq_of_toNat_eq
    simp [word, Nat.mod_eq_of_lt small, Nat.shiftLeft_eq]
  simp only [bit_eq _ small', value, BitVec.getLsbD_shiftLeft, BitVec.getLsbD_one]
  by_cases same : i = j <;> simp [same] <;> omega

/-- A line that is replaced is read where it stands, and every other line as before. -/
theorem taken_setLine {j : Nat} (line : j < b.lines.size) (w : UInt64) (g : Nat) :
    (Bitmap.mk (b.lines.setIfInBounds j w)).taken g =
      if j = g / 64 then bit w (g % 64) else b.taken g := by
  by_cases here : j = g / 64
  · rw [if_pos here]
    simp [taken, ← here, line]
  · rw [if_neg here]
    simp [taken, Array.getElem?_setIfInBounds_ne here]

theorem taken_of_line {j : Nat} (line : j < b.lines.size) (here : j = g / 64) :
    b.taken g = bit b.lines[j] (g % 64) := by
  simp [taken, ← here, line]

theorem setBit?_eq (known : f < b.capacity) : ∃ b', b.setBit? f = .ok b' ∧
    b'.lines.size = b.lines.size ∧ ∀ g, b'.taken g = (b.taken g || decide (g = f)) := by
  have line : f / 64 < b.lines.size := by
    simp only [capacity] at known
    omega
  refine ⟨⟨b.lines.setIfInBounds (f / 64) (b.lines[f / 64] ||| 1 <<< (f % 64).toUInt64)⟩,
    by simp [setBit?, line], by simp, fun g => ?_⟩
  have small : g % 64 < 64 := Nat.mod_lt _ (by decide)
  have one := bit_one (Nat.mod_lt f (by decide)) small
  rw [taken_setLine line]
  by_cases here : f / 64 = g / 64
  · have place : f % 64 = g % 64 ↔ g = f := by omega
    have both (v w : UInt64) : bit (v ||| w) (g % 64) = (bit v (g % 64) || bit w (g % 64)) := by
      simp [bit_eq _ small]
    rw [if_pos here, both, one, ← taken_of_line line here, decide_eq_decide.mpr place]
  · have other : g ≠ f := by
      rintro rfl
      exact here rfl
    rw [if_neg here, decide_eq_false other, Bool.or_false]

/-- Setting bits one by one takes the frames of a range. -/
theorem setBits_eq (n : Nat) : ∀ (b : Bitmap) (f : Nat), f + n ≤ b.capacity →
    b.setBits n f = .ok (b.mark f (f + n)) := by
  induction n with
  | zero =>
    intro b f _
    have none : b.mark f f = b := by
      apply ext_taken
      · simp [mark]
      · intro g
        have nowhere : ¬(f ≤ g ∧ g < f) := by omega
        rw [taken_mark, decide_eq_false nowhere, Bool.or_false]
    simp [setBits, none, pure, Except.pure]
  | succ n ih =>
    intro b f within
    obtain ⟨b', set, size, taken⟩ := setBit?_eq (b := b) (f := f) (by omega)
    have rest := ih b' (f + 1) (by simp only [capacity, size] at within ⊢; omega)
    have same : b'.mark (f + 1) (f + 1 + n) = b.mark f (f + (n + 1)) := by
      apply ext_taken
      · simp [mark, size]
      · intro g
        simp only [taken_mark, taken, Bool.or_assoc, ← Bool.decide_or]
        congr 2
        apply propext
        omega
    simp [setBits, set, rest, same, bind, Except.bind]

/-! ## The search -/

/-- One attempt: what each way that it can end says about the run. -/
theorem stretch_spec (lines : stop ≤ b.capacity) (word : stop ≤ Word.max) (left : Nat) :
    ∀ i, start + i ≤ stop → b.FreeRun start i → match b.stretch stop start left i with
      | .ok .whole => start + (i + left) ≤ stop ∧ b.FreeRun start (i + left)
      | .ok .cut => stop < start + (i + left)
      | .ok (.blocked j) => j < i + left ∧ start + j < stop ∧ b.taken (start + j) = true
      | .error _ => False := by
  induction left with
  | zero => exact fun i within free => ⟨within, free⟩
  | succ left ih =>
    intro i within free
    have sum := Word.step_of_le within word
    simp only [stretch, sum, bind, Except.bind]
    by_cases ended : stop ≤ start + i
    · simp only [ended, if_true, pure, Except.pure]
      omega
    · simp only [ended, if_false, bit?_eq (Nat.lt_of_lt_of_le (Nat.lt_of_not_le ended) lines)]
      cases taken : b.taken (start + i) with
      | true =>
        simp only [if_true, pure, Except.pure]
        exact ⟨by omega, by omega, taken⟩
      | false =>
        have next := Word.step_of_le (a := i) (b := 1) (c := stop) (by omega) word
        have later := ih (i + 1) (by omega) (free.succ taken)
        have length : i + 1 + left = i + (left + 1) := by omega
        simpa only [Bool.false_eq_true, if_false, next, length] using later

/-- The scan comes to the first fit: a start that it skips is no start of a free run. -/
theorem scan_eq {r : Span} (lines : r.stop ≤ b.capacity) (word : r.stop ≤ Word.max)
    (positive : 0 < n) (start : Nat) (within : start ≤ r.stop) (low : r.first ≤ start)
    (skipped : ∀ s, r.first ≤ s → s < start → ¬b.FreeRun s n) :
    b.scan r.stop n start = .ok (b.firstFit r n) := by
  induction gap : r.stop - start using Nat.strongRecOn generalizing start with
  | ind gap ih =>
    have empty : b.FreeRun start 0 := fun f _ _ => by omega
    have attempt := stretch_spec lines word n 0 within empty
    unfold scan
    split
    · next failed => simp [failed] at attempt
    · next whole =>
      simp only [whole, Nat.zero_add] at attempt
      have first : b.firstFit r n = some start := by
        apply (firstFit_eq_some positive).mpr
        refine ⟨⟨low, attempt.1, attempt.2⟩, fun s fits => ?_⟩
        by_cases before : s < start
        · exact absurd fits.free (skipped s fits.first before)
        · omega
      rw [first]
    · next cut =>
      simp only [cut, Nat.zero_add] at attempt
      have none : b.firstFit r n = none := by
        apply (firstFit_eq_none positive).mpr
        intro s fits
        have ends := fits.stop
        by_cases before : s < start
        · exact skipped s fits.first before fits.free
        · omega
      rw [none]
    · next i blocked =>
      simp only [blocked, Nat.zero_add] at attempt
      obtain ⟨short, inside, taken⟩ := attempt
      have one := Word.step_of_le (a := i) (b := 1) (c := r.stop) (by omega) word
      have next := Word.step_of_le (a := start) (b := i + 1) (c := r.stop) (by omega) word
      simp only [one, next]
      apply ih (r.stop - (start + (i + 1))) (by omega) (start + (i + 1)) (by omega) (by omega) _ rfl
      intro s here before free
      by_cases early : s < start
      · exact skipped s here early free
      · -- a run from here on would need the frame that is taken
        have needed := free (start + i) (by omega) (by omega)
        rw [taken] at needed
        cases needed

end Bitmap

namespace Frames
variable {fs fs' fs₀ : Frames} {n f : Nat}

/-! ## The request -/

theorem clamp_of_fits (fits : fs.bitmap.Fits fs.window n f) (inside : fs.window.stop ≤ fs.capacity)
    (word : fs.capacity ≤ Word.max) : fs.clamp f n = ⟨f, f + n⟩ := by
  have stop := fits.stop
  simp only [clamp, Word.satAdd, Span.mk.injEq]
  omega

/-- Frame by frame, a request comes to the answer of `allocate`. -/
theorem serve_eq (ordered : fs.window.first ≤ fs.window.stop)
    (inside : fs.window.stop ≤ fs.capacity) (word : fs.capacity ≤ Word.max) (n : Nat) :
    fs.serve n = .ok (match (fs.allocate n).value with
      | .ok (f, fs') => (.ok f, fs')
      | .error e => (.error e, fs)) := by
  rw [value_allocate]
  by_cases empty : n = 0
  · simp [serve, empty, pure, Except.pure]
  · have positive := Nat.pos_of_ne_zero empty
    have scanned := Bitmap.scan_eq inside (Nat.le_trans inside word) positive fs.window.first
      ordered (Nat.le_refl _) (fun s low before => by omega)
    cases found : fs.bitmap.firstFit fs.window n with
    | none => simp [serve, empty, scanned, found, bind, Except.bind, pure, Except.pure]
    | some f =>
      have fits := ((Bitmap.firstFit_eq_some positive).mp found).1
      have clamped := clamp_of_fits fits inside word
      have within : f + n ≤ fs.bitmap.capacity := Nat.le_trans fits.stop inside
      have set := Bitmap.setBits_eq n fs.bitmap f within
      simp [serve, empty, scanned, found, clamped, set, mark, bind, Except.bind, pure, Except.pure]

/-- What it says that a request for `n` frames was answered exactly by first fit. -/
structure FirstFit (fs : Frames) (n : Nat) (answer : Except AllocError Nat) (fs' : Frames) :
    Prop where
  empty : answer = .error .emptyRequest ↔ n = 0
  granted : ∀ s, answer = .ok s ↔ 0 < n ∧ fs.bitmap.Fits fs.window n s ∧
    ∀ s', fs.bitmap.Fits fs.window n s' → s ≤ s'
  refused : ∀ m, answer = .error (.outOfMemory m) ↔
    0 < n ∧ m = n ∧ ∀ s, ¬fs.bitmap.Fits fs.window n s
  /-- Nothing but the frames of the run changes hands. -/
  taken : ∀ s, answer = .ok s → ∀ f, fs'.isTaken f = true ↔
    fs.isTaken f = true ∨ s ≤ f ∧ f < s + n
  kept : (∀ s, answer ≠ .ok s) → fs' = fs
  window : fs'.window = fs.window
  capacity : fs'.capacity = fs.capacity

/-- Where an answer of `allocate` comes from, and what it leaves behind. -/
theorem firstFit_allocate (inside : fs.window.stop ≤ fs.capacity) (word : fs.capacity ≤ Word.max)
    (n : Nat) : match (fs.allocate n).value with
      | .ok (f, fs') => FirstFit fs n (.ok f) fs'
      | .error e => FirstFit fs n (.error e) fs := by
  rw [value_allocate]
  by_cases empty : n = 0
  · simp only [empty, if_true]
    constructor <;> simp
  · have positive := Nat.pos_of_ne_zero empty
    have served {s : Nat} :=
      Bitmap.firstFit_eq_some (b := fs.bitmap) (r := fs.window) (s := s) positive
    have refused := Bitmap.firstFit_eq_none (b := fs.bitmap) (r := fs.window) positive
    simp only [empty, if_false]
    cases found : fs.bitmap.firstFit fs.window n with
    | none =>
      have nowhere := refused.mp found
      constructor
      case refused =>
        intro m
        simp [positive, nowhere, eq_comm]
      all_goals simp [empty, nowhere]
    | some f =>
      obtain ⟨fits, least⟩ := served.mp found
      constructor
      case empty => simp [empty]
      case granted =>
        intro s
        simp [positive, ← served, found]
      case refused =>
        intro m
        have somewhere : ¬∀ s, ¬fs.bitmap.Fits fs.window n s := fun nowhere => nowhere f fits
        simp [somewhere]
      case taken =>
        intro s same g
        cases same
        simp [isTaken, mark, clamp_of_fits fits inside word, Bitmap.taken_mark]
      case kept => exact fun other => absurd rfl (other f)
      case window => rfl
      case capacity => exact capacity_mark fs f n

/-- **Allocation is exact first fit.** Whatever the bitmap and the window that was set, a request is
refused at once if it is for no frames. Otherwise it gets the lowest run of that many free frames in
the window, whose bits are set and no others, or if there is none it is refused and changes nothing.
Served frame by frame it comes to an end with this answer: no sum leaves a machine word on the way,
no line is read or written that the bitmap does not have, and the address of the first frame is a
word too, as long as the bytes of all frames have addresses. -/
theorem allocate_exact_first_fit (fs₀ fs : Frames) (first stop n : Nat)
    (word : fs₀.capacity ≤ Word.max) (set : fs₀.restrict first stop = .ok fs) :
    ∃ answer fs', fs.serve n = .ok (answer, fs') ∧
      (fs.allocate n).value = answer.map (·, fs') ∧
      FirstFit fs n answer fs' ∧
      (fs₀.capacity * Platform.frameBytes ≤ Word.bound →
        ∀ f, answer = .ok f → Frame.address? f = .ok (f * Platform.frameBytes)) := by
  have ordered : fs.window.first ≤ fs.window.stop ∧ fs.window.stop ≤ fs.capacity ∧
      fs.capacity = fs₀.capacity := by
    simp only [restrict] at set
    split at set <;> cases set
    next accepted => exact ⟨accepted, Nat.min_le_right _ _, rfl⟩
  obtain ⟨ordered, inside, same⟩ := ordered
  rw [← same] at word ⊢
  have served := serve_eq ordered inside word n
  have exact' := firstFit_allocate inside word n
  cases answered : (fs.allocate n).value with
  | error e =>
    simp only [answered] at served exact'
    exact ⟨.error e, fs, served, rfl, exact', by simp⟩
  | ok r =>
    obtain ⟨f, fs'⟩ := r
    simp only [answered] at served exact'
    refine ⟨.ok f, fs', served, rfl, exact', fun bytes g given => ?_⟩
    cases given
    have fits := ((exact'.granted f).mp rfl).2.1
    have below : f < fs.capacity := by
      have stop := fits.stop
      have positive := ((exact'.granted f).mp rfl).1
      omega
    have small : f * Platform.frameBytes < Word.bound :=
      Nat.lt_of_lt_of_le (Nat.mul_lt_mul_of_pos_right below (by decide)) bytes
    simp [Frame.address?, Word.mul?, small]

/-- Two frames are in the way of the first run of four that is free, and a request for more frames
than there could ever be is refused. -/
theorem allocate_exact_first_fit_behind_taken :
    let fs₀ := (((Frames.full 4).release 0 256).mark 2 1).mark 6 1
    let fs : Frames := { fs₀ with window := ⟨0, 256⟩ }
    fs₀.capacity ≤ Word.max ∧ fs₀.restrict 0 10000 = .ok fs ∧
      (fs.serve 4 = .ok (.ok 7, fs.mark 7 4) ∧ FirstFit fs 4 (.ok 7) (fs.mark 7 4)) ∧
      fs.serve Word.max = .ok (.error (.outOfMemory Word.max), fs) ∧
      FirstFit fs Word.max (.error (.outOfMemory Word.max)) fs := by
  intro fs₀ fs
  have word : fs₀.capacity ≤ Word.max := by decide
  have set : fs₀.restrict 0 10000 = .ok fs := by rfl
  have found : fs.bitmap.firstFit fs.window 4 = some 7 := by decide +kernel
  have none : fs.bitmap.firstFit fs.window Word.max = none := by decide +kernel
  have four : (fs.allocate 4).value = .ok (7, fs.mark 7 4) := by simp [value_allocate, found]
  have many : (fs.allocate Word.max).value = .error (.outOfMemory Word.max) := by
    have some : Word.max ≠ 0 := by decide
    simp [value_allocate, none, some]
  obtain ⟨answer, fs', served, answered, fit, -⟩ :=
    allocate_exact_first_fit fs₀ fs 0 10000 4 word set
  obtain ⟨answer', fs'', served', answered', fit', -⟩ :=
    allocate_exact_first_fit fs₀ fs 0 10000 Word.max word set
  rw [four] at answered
  rw [many] at answered'
  cases answer with
  | error e => cases answered
  | ok f =>
    cases answered
    cases answer' with
    | ok f => cases answered'
    | error e =>
      cases answered'
      have unchanged := fit'.kept (by simp)
      rw [unchanged] at served' fit'
      exact ⟨word, set, ⟨served, fit⟩, served', fit'⟩

end Frames

end Nucleus
