import Nucleus.Frame.MemoryMap
import Nucleus.Proofs.Frame.FirstFit

/-!
# Ingestion

An allocator after it has been seeded from a firmware map, without the log and the counters.

* `ingest_of_countable`, `ingest_of_not_countable`: what seeding comes to, going by its counters.
* `ingest_eq_ok`: it fails only over them, or if nothing is left for the window.
* `free_seeded`: what is free afterwards is what the map leaves usable.
-/

namespace Nucleus
open Platform

/-- A range has all bytes of a frame if it has the first and the last. -/
theorem Frame.bytes_within_iff {f low high : Nat} :
    (∀ a, f * frameBytes ≤ a → a < (f + 1) * frameBytes → low ≤ a ∧ a < high) ↔
      low ≤ f * frameBytes ∧ (f + 1) * frameBytes ≤ high := by
  have next : (f + 1) * frameBytes = f * frameBytes + frameBytes := Nat.succ_mul f frameBytes
  have some : 0 < frameBytes := by decide
  constructor
  · intro all
    have first := all (f * frameBytes) (Nat.le_refl _) (by omega)
    have last := all (f * frameBytes + (frameBytes - 1)) (by omega) (by omega)
    have past := last.2
    exact ⟨first.1, by omega⟩
  · intro ⟨start, stop⟩ a after before
    exact ⟨Nat.le_trans start after, Nat.lt_of_lt_of_le before stop⟩

/-- An available and an unavailable descriptor alike name just the frames they cover. -/
theorem Descriptor.among_eq_covers (d : Descriptor) (f : Nat) :
    Frames.among d.firstFrame d.frameCount f = d.covers f := by
  have bounded : d.stop ≤ Word.max := Nat.min_le_right _ _
  have last : Frame.containing d.stop ≤ Word.max := Nat.le_trans (Nat.div_le_self _ _) bounded
  rw [Bool.eq_iff_iff, Frames.among, covers, Bool.and_eq_true, Bool.and_eq_true,
    decide_eq_true_iff, decide_eq_true_iff, decide_eq_true_iff, Word.satAdd, frameCount]
  omega

theorem Descriptor.last_lt_bound {d : Descriptor} (word : d.start < Word.bound) :
    d.firstFrame + d.frameCount < Word.bound := by
  simp only [frameCount, firstFrame, stop, Frame.atOrAfter, Frame.containing, Word.satAdd, Word.max,
    Word.bound, frameBytes] at *
  omega

/-- The end of the last available frame of a map. -/
def mapEnd (map : List Descriptor) : Nat :=
  (map.filter Descriptor.available).foldl (fun e d => max e (d.firstFrame + d.frameCount)) 0

theorem lt_mapEnd_iff {map : List Descriptor} {f : Nat} : f < mapEnd map ↔
    ∃ d ∈ map, d.available = true ∧ f < d.firstFrame + d.frameCount := by
  have reached (ds : List Descriptor) : ∀ e,
      f < ds.foldl (fun e d => max e (d.firstFrame + d.frameCount)) e ↔
        f < e ∨ ∃ d ∈ ds, f < d.firstFrame + d.frameCount := by
    induction ds with
    | nil => simp
    | cons d ds ih =>
      intro e
      have either : f < max e (d.firstFrame + d.frameCount) ↔
          f < e ∨ f < d.firstFrame + d.frameCount := by omega
      rw [List.foldl_cons, ih, either]
      simp only [List.mem_cons, exists_eq_or_imp, or_assoc]
  rw [mapEnd, reached]
  simp only [Nat.not_lt_zero, false_or, List.mem_filter, and_assoc]

namespace Frames
variable {fs fs' : Frames} {map : List Descriptor} {f : Nat}

/-- Frame `f` is there and free or available, and `map` does not reserve it. -/
structure Usable (fs : Frames) (map : List Descriptor) (f : Nat) : Prop where
  known : f < fs.capacity
  available : fs.isTaken f = false ∨ ∃ d ∈ map, d.available = true ∧ d.covers f = true
  unreserved : ∀ d ∈ map, d.covers f = true → d.available = true

def releaseAll (fs : Frames) (ds : List Descriptor) : Frames :=
  ds.foldl (fun fs d => fs.release d.firstFrame d.frameCount) fs

def markAll (fs : Frames) (ds : List Descriptor) : Frames :=
  ds.foldl (fun fs d => fs.mark d.firstFrame d.frameCount) fs

/-- The allocator that is seeded from `map`. -/
def seeded (fs : Frames) (map : List Descriptor) : Frames :=
  { (fs.releaseAll (map.filter Descriptor.available)).markAll
      (map.filter fun d => !d.available) with
    window := ⟨1, min (mapEnd map) fs.capacity⟩ }

theorem capacity_releaseAll (ds : List Descriptor) (fs : Frames) :
    (fs.releaseAll ds).capacity = fs.capacity := by
  induction ds generalizing fs with
  | nil => rfl
  | cons d ds ih => exact (ih _).trans (capacity_release fs _ _)

theorem capacity_markAll (ds : List Descriptor) (fs : Frames) :
    (fs.markAll ds).capacity = fs.capacity := by
  induction ds generalizing fs with
  | nil => rfl
  | cons d ds ih => exact (ih _).trans (capacity_mark fs _ _)

theorem free_releaseAll (ds : List Descriptor) : ∀ fs : Frames,
    (fs.releaseAll ds).isTaken f = false ↔
      f < fs.capacity ∧ (fs.isTaken f = false ∨ ∃ d ∈ ds, d.covers f = true) := by
  induction ds with
  | nil =>
    intro fs
    constructor
    · intro free
      exact ⟨lt_capacity_of_free free, .inl free⟩
    · rintro ⟨-, free | ⟨d, here, -⟩⟩
      · exact free
      · cases here
  | cons d ds ih =>
    intro fs
    refine (ih (fs.release d.firstFrame d.frameCount)).trans ?_
    rw [capacity_release, free_release, Descriptor.among_eq_covers]
    simp only [List.mem_cons, exists_eq_or_imp]
    constructor
    · rintro ⟨known, ⟨-, free | first⟩ | later⟩
      · exact ⟨known, .inl free⟩
      · exact ⟨known, .inr (.inl first)⟩
      · exact ⟨known, .inr (.inr later)⟩
    · rintro ⟨known, free | first | later⟩
      · exact ⟨known, .inl ⟨known, .inl free⟩⟩
      · exact ⟨known, .inl ⟨known, .inr first⟩⟩
      · exact ⟨known, .inr later⟩

theorem free_markAll (ds : List Descriptor) : ∀ fs : Frames,
    (fs.markAll ds).isTaken f = false ↔
      fs.isTaken f = false ∧ ∀ d ∈ ds, d.covers f = false := by
  induction ds with
  | nil =>
    intro fs
    simp [markAll]
  | cons d ds ih =>
    intro fs
    refine (ih (fs.mark d.firstFrame d.frameCount)).trans ?_
    rw [free_mark, Descriptor.among_eq_covers, List.forall_mem_cons, and_assoc]

/-- What is free in a seeded allocator is what the map leaves usable. -/
theorem free_seeded : (fs.seeded map).isTaken f = false ↔ fs.Usable map f := by
  refine (free_markAll _ _).trans ?_
  rw [free_releaseAll]
  simp only [List.mem_filter]
  constructor
  · rintro ⟨⟨known, available⟩, unreserved⟩
    refine ⟨known, ?_, fun d here covers => ?_⟩
    · rcases available with free | ⟨d, ⟨here, available⟩, covers⟩
      · exact .inl free
      · exact .inr ⟨d, here, available, covers⟩
    · cases kind : d.available with
      | true => rfl
      | false =>
        have uncovered := unreserved d ⟨here, by simp [kind]⟩
        rw [covers] at uncovered
        cases uncovered
  · rintro ⟨known, available, unreserved⟩
    refine ⟨⟨known, ?_⟩, fun d here => ?_⟩
    · rcases available with free | ⟨d, here, available, covers⟩
      · exact .inl free
      · exact .inr ⟨d, ⟨here, available⟩, covers⟩
    · cases covers : d.covers f with
      | false => rfl
      | true =>
        have available := unreserved d here.1 covers
        simp [available] at here

/-- Frame `f` is usable, and in the window that is opened. -/
structure Offered (fs : Frames) (map : List Descriptor) (f : Nat) : Prop
    extends Usable fs map f where
  positive : 1 ≤ f
  inside : f < mapEnd map

theorem offered_iff : fs.Offered map f ↔
    (fs.seeded map).window.contains f = true ∧ (fs.seeded map).isTaken f = false := by
  have window : (fs.seeded map).window = ⟨1, min (mapEnd map) fs.capacity⟩ := rfl
  rw [Span.contains_iff, free_seeded, window]
  constructor
  · rintro ⟨usable, positive, inside⟩
    exact ⟨⟨positive, Nat.lt_min.mpr ⟨inside, usable.known⟩⟩, usable⟩
  · rintro ⟨⟨positive, inside⟩, usable⟩
    exact ⟨usable, positive, (Nat.lt_min.mp inside).1⟩

/-- The runs that fit into the window are those of offered frames. -/
theorem fits_seeded_iff {n s : Nat} (positive : 0 < n) :
    (fs.seeded map).bitmap.Fits (fs.seeded map).window n s ↔
      ∀ f, s ≤ f → f < s + n → fs.Offered map f := by
  constructor
  · rintro ⟨first, stop, free⟩ f low high
    refine offered_iff.mpr ⟨Span.contains_iff.mpr ⟨?_, ?_⟩, free f low high⟩
    · exact Nat.le_trans first low
    · exact Nat.lt_of_lt_of_le high stop
  · intro offered
    have inside (f : Nat) (low : s ≤ f) (high : f < s + n) := offered_iff.mp (offered f low high)
    obtain ⟨first, -⟩ := Span.contains_iff.mp (inside s (Nat.le_refl s) (by omega)).1
    obtain ⟨-, last⟩ := Span.contains_iff.mp (inside (s + n - 1) (by omega) (by omega)).1
    exact ⟨first, by omega, fun f low high => (inside f low high).2⟩

theorem lt_mapEnd {d : Descriptor} (here : d ∈ map) (available : d.available = true)
    (covers : d.covers f = true) : f < mapEnd map := by
  rw [Descriptor.covers, Bool.and_eq_true, decide_eq_true_iff, decide_eq_true_iff] at covers
  exact lt_mapEnd_iff.mpr ⟨d, here, available, covers.2⟩

end Frames

/-! ## Counters -/

namespace Ingestion

/-- What releasing the frames of `d` comes to. -/
def after (i : Ingestion) (d : Descriptor) : Ingestion :=
  ⟨i.frames.release d.firstFrame d.frameCount, i.released + d.frameCount,
    max i.stop (d.firstFrame + d.frameCount)⟩

/-- The frames that the descriptors of a list cover, each counted as often as it is covered. -/
def total : List Descriptor → Nat
  | [] => 0
  | d :: ds => d.frameCount + total ds

theorem releaseDescriptor_eq_ok {i i' : Ingestion} {d : Descriptor} :
    (i.releaseDescriptor d).run.value = .ok i' ↔
      i.released + d.frameCount < Word.bound ∧ d.firstFrame + d.frameCount < Word.bound ∧
        i' = i.after d := by
  simp only [releaseDescriptor, Checked.value_run_bind, Checked.value_run_note,
    Checked.value_run_check, Checked.value_run_pure, Except.bind, Frame.offset?]
  by_cases counts : i.released + d.frameCount < Word.bound
  · by_cases stops : d.firstFrame + d.frameCount < Word.bound
    · simp only [Word.add?, counts, stops, if_true, true_and, Except.ok.injEq, eq_comm, after]
    · simp [Word.add?, counts, stops]
  · simp [Word.add?, counts]

theorem releaseDescriptor_eq_error {i : Ingestion} {d : Descriptor} {p : Panic}
    (failed : (i.releaseDescriptor d).run.value = .error p) : p = .overflow := by
  simp only [releaseDescriptor, Checked.value_run_bind, Checked.value_run_note,
    Checked.value_run_check, Checked.value_run_pure, Except.bind, Frame.offset?] at failed
  cases counts : Word.add? i.released d.frameCount with
  | error q =>
    rw [counts] at failed
    cases failed
    exact Word.add?_eq_error counts
  | ok n =>
    rw [counts] at failed
    cases stops : Word.add? d.firstFrame d.frameCount with
    | error q =>
      rw [stops] at failed
      cases failed
      exact Word.add?_eq_error stops
    | ok e =>
      rw [stops] at failed
      cases failed

theorem foldlM_eq_ok (ds : List Descriptor) (i' : Ingestion) :
    ∀ {i : Ingestion}, i.released < Word.bound →
    ((ds.foldlM releaseDescriptor i).run.value = .ok i' ↔
      i.released + total ds < Word.bound ∧
        (∀ d ∈ ds, d.firstFrame + d.frameCount < Word.bound) ∧ i' = ds.foldl after i) := by
  induction ds with
  | nil =>
    intro i small
    simp [total, small, eq_comm]
  | cons d ds ih =>
    intro i small
    rw [List.foldlM_cons, Checked.value_run_bind]
    have rest : total (d :: ds) = d.frameCount + total ds := rfl
    cases ran : (i.releaseDescriptor d).run.value with
    | error p =>
      have failed : ¬ (i.released + d.frameCount < Word.bound ∧
          d.firstFrame + d.frameCount < Word.bound) := by
        rintro ⟨counts, stops⟩
        rw [releaseDescriptor_eq_ok.mpr ⟨counts, stops, rfl⟩] at ran
        cases ran
      constructor
      · rintro ⟨⟩
      · rintro ⟨counts, stops, -⟩
        exact absurd ⟨by omega, stops d (.head _)⟩ failed
    | ok j =>
      obtain ⟨counts, stops, rfl⟩ := releaseDescriptor_eq_ok.mp ran
      have later := ih (i := i.after d) counts
      refine later.trans ?_
      rw [List.forall_mem_cons, List.foldl_cons, rest, after]
      simp only [stops, true_and, Nat.add_assoc]

/-- A counter is all that can stop a release. -/
theorem foldlM_eq_error (ds : List Descriptor) {p : Panic} : ∀ {i : Ingestion},
    (ds.foldlM releaseDescriptor i).run.value = .error p → p = .overflow := by
  induction ds with
  | nil => rintro i ⟨⟩
  | cons d ds ih =>
    intro i failed
    rw [List.foldlM_cons, Checked.value_run_bind] at failed
    cases ran : (i.releaseDescriptor d).run.value with
    | error q =>
      rw [ran] at failed
      cases failed
      exact releaseDescriptor_eq_error ran
    | ok j =>
      rw [ran] at failed
      exact ih failed

theorem foldl_after (ds : List Descriptor) : ∀ i : Ingestion,
    ds.foldl after i = ⟨i.frames.releaseAll ds, i.released + total ds,
      ds.foldl (fun e d => max e (d.firstFrame + d.frameCount)) i.stop⟩ := by
  induction ds with
  | nil => exact fun i => rfl
  | cons d ds ih =>
    intro i
    rw [List.foldl_cons, ih (i.after d)]
    rw [total, ← Nat.add_assoc]
    rfl

end Ingestion

/-- The counters of a seeding do not overflow. -/
structure Countable (map : List Descriptor) : Prop where
  total : Ingestion.total (map.filter Descriptor.available) < Word.bound
  stops : ∀ d ∈ map, d.available = true → d.firstFrame + d.frameCount < Word.bound

theorem Countable.mapEnd_lt {map : List Descriptor} (h : Countable map) :
    mapEnd map < Word.bound := by
  apply Nat.lt_of_not_le
  intro past
  have beyond : Word.max < mapEnd map := past
  obtain ⟨d, here, available, high⟩ := lt_mapEnd_iff.mp beyond
  exact Nat.not_le_of_lt (h.stops d here available) high

/-- How many frames `map` says are available, each counted as often as it says so. -/
def availableFrames (map : List Descriptor) : Nat :=
  Ingestion.total (map.filter Descriptor.available)

theorem countable_iff {map : List Descriptor} (words : ∀ d ∈ map, d.start < Word.bound) :
    Countable map ↔ availableFrames map < Word.bound :=
  ⟨Countable.total, fun total => ⟨total, fun d here _ => Descriptor.last_lt_bound (words d here)⟩⟩

theorem Bitmap.countFrom_le (b : Bitmap) (n : Nat) : ∀ f sum, b.countFrom n f sum ≤ n + sum := by
  induction n with
  | zero => exact fun _ sum => Nat.le_of_eq (Nat.zero_add sum).symm
  | succ n ih =>
    intro f sum
    have counted := ih (f + 1) (sum + 1)
    have skipped := ih (f + 1) sum
    rw [countFrom]
    split <;> omega

namespace Frames
variable {fs fs' : Frames} {map : List Descriptor}

theorem free?_usage (fs : Frames) : ∃ n, fs.usage.free? = .ok n := by
  refine ⟨_, Word.sub?_eq_ok.mpr ⟨?_, rfl⟩⟩
  exact Bitmap.countFrom_le _ _ _ 0

/-- Seeding without its counters. -/
theorem value_ingest {i : Ingestion}
    (released : ((map.filter Descriptor.available).foldlM Ingestion.releaseDescriptor ⟨fs, 0, 0⟩
      ).run.value = .ok i) :
    (fs.ingest map).run.value =
      (i.frames.markAll (map.filter fun d => !d.available)).restrict 1 i.stop := by
  simp only [ingest, Checked.value_run_bind, released, Except.bind, Checked.value_run_check]
  cases opened : (i.frames.markAll (map.filter fun d => !d.available)).restrict 1 i.stop with
  | error p =>
    rw [markAll] at opened
    simp only [opened]
  | ok fs' =>
    obtain ⟨n, counted⟩ := free?_usage fs'
    rw [markAll] at opened
    simp only [opened, counted]
    rfl

theorem ingest_of_countable (countable : Countable map) : (fs.ingest map).run.value =
    if 1 ≤ min (mapEnd map) fs.capacity then .ok (fs.seeded map) else .error .invertedWindow := by
  have small : (⟨fs, 0, 0⟩ : Ingestion).released < Word.bound := Nat.zero_lt_succ _
  have released := (Ingestion.foldlM_eq_ok (map.filter Descriptor.available) _ small).mpr
    ⟨by simpa using countable.total, by simpa using countable.stops, rfl⟩
  rw [value_ingest released, Ingestion.foldl_after, restrict, capacity_markAll,
    capacity_releaseAll]
  rfl

theorem ingest_of_not_countable (overflows : ¬ Countable map) :
    (fs.ingest map).run.value = .error .overflow := by
  have small : (⟨fs, 0, 0⟩ : Ingestion).released < Word.bound := Nat.zero_lt_succ _
  cases released : ((map.filter Descriptor.available).foldlM Ingestion.releaseDescriptor
      ⟨fs, 0, 0⟩).run.value with
  | error p =>
    rw [ingest, Checked.value_run_bind, released, Ingestion.foldlM_eq_error _ released]
    rfl
  | ok i =>
    have ⟨total, stops, _⟩ := (Ingestion.foldlM_eq_ok _ i small).mp released
    have countable : Countable map := ⟨by simpa using total, by simpa using stops⟩
    exact absurd countable overflows

/-- Seeding fails only over its counters, or if the map leaves no window. -/
theorem ingest_eq_ok : (fs.ingest map).run.value = .ok fs' ↔
    Countable map ∧ 1 ≤ min (mapEnd map) fs.capacity ∧ fs' = fs.seeded map := by
  by_cases countable : Countable map
  · rw [ingest_of_countable countable]
    split
    · next window => simp [countable, window, eq_comm]
    · next window => simp [window]
  · rw [ingest_of_not_countable countable]
    simp [countable]

theorem Offered.lt_max {f : Nat} (offered : fs.Offered map f) (countable : Countable map) :
    f < Word.max := by
  have past := offered.inside
  have last := countable.mapEnd_lt
  rw [Word.max]
  omega

end Frames

end Nucleus
