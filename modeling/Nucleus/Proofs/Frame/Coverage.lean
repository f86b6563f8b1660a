import Mathlib.Order.Nat
import Nucleus.Proofs.Frame.Ingestion
import Nucleus.Proofs.Frame.Scan

/-!
# Coverage

Ingestion in closed form: the allocator before, and which descriptors fill which frame, are all
that the allocator after depends on. So a map is a set, whatever its order and its repetitions.

* `Fills`, `availableEnd`: the frames of a descriptor and the end of the window, by addresses.
* `taken_seeded_iff`: a frame is taken if it is reserved, or was taken and is not available.
* `ingest_congr`: maps with the same descriptors seed the same allocator.
* `ingested_exactly`: both, and that ingestion does come to an end.
-/

namespace Nucleus
open Platform

/-- All of frame `f` lies between the start and the end of the descriptor, where an end past the
last word is the last word. -/
def Descriptor.Fills (d : Descriptor) (f : Nat) : Prop :=
  ∀ a, f * frameBytes ≤ a → a < (f + 1) * frameBytes → d.start ≤ a ∧ a < d.stop

theorem Descriptor.covers_iff_fills {d : Descriptor} {f : Nat} :
    d.covers f = true ↔ d.Fills f :=
  covers_iff.trans Frame.bytes_within_iff.symm

/-- The largest start and the largest end of the available descriptors, a start rounded up and an
end rounded down to a frame. -/
def availableEnd (map : List Descriptor) : Nat :=
  (map.filter Descriptor.available).foldl
    (fun e d => max e (max (Frame.atOrAfter d.start) (Frame.containing d.stop))) 0

theorem mapEnd_eq (map : List Descriptor) : mapEnd map = availableEnd map := by
  have last (d : Descriptor) : d.firstFrame + d.frameCount =
      max (Frame.atOrAfter d.start) (Frame.containing d.stop) := by
    rw [Descriptor.frameCount, Descriptor.firstFrame]
    omega
  simp only [mapEnd, availableEnd, last]

theorem mapEnd_congr {map map' : List Descriptor} (same : ∀ d, d ∈ map' ↔ d ∈ map) :
    mapEnd map' = mapEnd map := by
  apply eq_of_forall_lt_iff
  intro f
  simp only [lt_mapEnd_iff, same]

/-- How often the frames of a map are counted does not depend on its order. -/
theorem availableFrames_perm {map map' : List Descriptor} (perm : map.Perm map') :
    availableFrames map = availableFrames map' := by
  have reordered (ds ds' : List Descriptor) (perm : ds.Perm ds') :
      Ingestion.total ds = Ingestion.total ds' := by
    induction perm with
    | nil => rfl
    | cons d _ ih => rw [Ingestion.total, ih, Ingestion.total]
    | swap d d' ds =>
      simp only [Ingestion.total]
      omega
    | trans _ _ ih ih' => exact ih.trans ih'
  exact reordered _ _ (perm.filter _)

namespace Frames
variable {fs : Frames} {map map' : List Descriptor} {f : Nat}

theorem capacity_seeded : (fs.seeded map).capacity = fs.capacity :=
  (capacity_markAll _ _).trans (capacity_releaseAll _ _)

/-- A frame is taken that a reserved descriptor fills, or that was taken before and that no
available descriptor fills. -/
theorem taken_seeded_iff (known : f < fs.capacity) : (fs.seeded map).isTaken f = true ↔
    (∃ d ∈ map, d.available = false ∧ d.Fills f) ∨
      (¬ ∃ d ∈ map, d.available = true ∧ d.Fills f) ∧ fs.isTaken f = true := by
  rw [← not_iff_not, Bool.not_eq_true, free_seeded]
  constructor
  · rintro ⟨-, available, unreserved⟩ (⟨d, here, reserved, fills⟩ | ⟨unavailable, taken⟩)
    · rw [unreserved d here (Descriptor.covers_iff_fills.mpr fills)] at reserved
      cases reserved
    · rcases available with free | ⟨d, here, available, covers⟩
      · rw [free] at taken
        cases taken
      · exact unavailable ⟨d, here, available, Descriptor.covers_iff_fills.mp covers⟩
  · intro neither
    obtain ⟨unreserved, available⟩ := not_or.mp neither
    constructor
    case known => exact known
    case available =>
      cases taken : fs.isTaken f with
      | false => exact .inl rfl
      | true =>
        obtain ⟨d, here, available, fills⟩ : ∃ d ∈ map, d.available = true ∧ d.Fills f :=
          Classical.not_not.mp fun unavailable => available ⟨unavailable, taken⟩
        exact .inr ⟨d, here, available, Descriptor.covers_iff_fills.mpr fills⟩
    case unreserved =>
      intro d here covers
      apply Bool.of_not_eq_false
      exact fun reserved =>
        unreserved ⟨d, here, reserved, Descriptor.covers_iff_fills.mp covers⟩

theorem usable_iff : fs.Usable map f ↔ f < fs.capacity ∧
    (fs.isTaken f = false ∨ ∃ d ∈ map, d.available = true ∧ d.covers f = true) ∧
      ∀ d ∈ map, d.covers f = true → d.available = true :=
  ⟨fun ⟨known, available, unreserved⟩ => ⟨known, available, unreserved⟩,
    fun ⟨known, available, unreserved⟩ => ⟨known, available, unreserved⟩⟩

theorem seeded_congr (same : ∀ d, d ∈ map' ↔ d ∈ map) : fs.seeded map' = fs.seeded map := by
  have bitmap : (fs.seeded map').bitmap = (fs.seeded map).bitmap := by
    apply Bitmap.eq_of_free_iff (capacity_seeded.trans capacity_seeded.symm)
    intro f
    refine free_seeded.trans (Iff.trans ?_ free_seeded.symm)
    simp only [usable_iff, same]
  have window : (fs.seeded map').window = (fs.seeded map).window := by
    rw [seeded, seeded, mapEnd_congr same]
  calc fs.seeded map' = ⟨(fs.seeded map').bitmap, (fs.seeded map').window⟩ := rfl
    _ = fs.seeded map := by rw [bitmap, window]

/-- The counter apart, ingestion takes a map for the set of its descriptors. -/
theorem ingest_congr (words : ∀ d ∈ map, d.start < Word.bound) (roomy : 0 < fs.capacity)
    (available : 1 ≤ availableEnd map) (same : ∀ d, d ∈ map' ↔ d ∈ map)
    (counted : availableFrames map' < Word.bound) :
    (fs.ingest map').run.value = .ok (fs.seeded map) := by
  have words' : ∀ d ∈ map', d.start < Word.bound := fun d here => words d ((same d).mp here)
  have window : 1 ≤ min (mapEnd map') fs.capacity := by
    rw [mapEnd_congr same, mapEnd_eq]
    exact Nat.le_min.mpr ⟨available, roomy⟩
  rw [ingest_of_countable ((countable_iff words').mpr counted), if_pos window, seeded_congr same]

/-- **Ingestion, exactly.** Of every map that has available memory past frame 0 and no more than a
word can count, the allocator takes the frames that a reserved descriptor fills, leaves those as
they were that no descriptor fills, and has the others free. The window ends with the available
memory or with the bitmap. Neither the order of the map matters nor how often it says something. -/
theorem ingested_exactly (fs : Frames) (map : List Descriptor)
    (words : ∀ d ∈ map, d.start < Word.bound) (roomy : 0 < fs.capacity)
    (available : 1 ≤ availableEnd map) (counted : availableFrames map < Word.bound) :
    ∃ fs', (fs.ingest map).run.value = .ok fs' ∧ fs'.capacity = fs.capacity ∧
      (∀ f < fs.capacity, fs'.isTaken f = true ↔
        (∃ d ∈ map, d.available = false ∧ d.Fills f) ∨
          (¬ ∃ d ∈ map, d.available = true ∧ d.Fills f) ∧ fs.isTaken f = true) ∧
      fs'.window = ⟨1, min fs.capacity (availableEnd map)⟩ ∧
      (∀ map', map.Perm map' → (fs.ingest map').run.value = .ok fs') ∧
      ∀ map', (∀ d, d ∈ map' ↔ d ∈ map) → availableFrames map' < Word.bound →
        (fs.ingest map').run.value = .ok fs' := by
  have ingested (map' : List Descriptor) (same : ∀ d, d ∈ map' ↔ d ∈ map) :=
    ingest_congr words roomy available same
  refine ⟨fs.seeded map, ingested map (fun _ => Iff.rfl) counted, capacity_seeded,
    fun f known => taken_seeded_iff known, ?_, fun map' perm => ?_, fun map' same counted' => ?_⟩
  · rw [seeded, mapEnd_eq, Nat.min_comm]
  · exact ingested map' (fun d => perm.mem_iff.symm) (availableFrames_perm perm ▸ counted)
  · exact ingested map' same counted'

/-- Two available descriptors overlap with each other and with a reserved one, and neither starts
with a frame. -/
theorem ingested_exactly_overlapping :
    let fs := (full 1).release 10 2
    let map : List Descriptor :=
      [⟨.conventional, 0x1800, 3⟩, ⟨.reserved, 0x3000, 1⟩, ⟨.conventional, 0x3000, 2⟩]
    0 < fs.capacity ∧ availableEnd map = 5 ∧ availableFrames map = 4 ∧
      ∃ fs', (fs.ingest map).run.value = .ok fs' ∧ fs'.window = ⟨1, 5⟩ ∧
        (∀ f < 12, fs'.isTaken f = false ↔ f = 2 ∨ f = 4 ∨ f = 10 ∨ f = 11) ∧
        (fs.ingest map.reverse).run.value = .ok fs' ∧
        (fs.ingest (map ++ map)).run.value = .ok fs' := by
  intro fs map
  have roomy : 0 < fs.capacity := by decide
  have stop : availableEnd map = 5 := by decide
  have counted : availableFrames map = 4 := by decide
  obtain ⟨fs', ingested, -, taken, window, reordered, repeated⟩ :=
    ingested_exactly fs map (by decide) roomy (by decide) (by decide)
  have seen : fs'.window = ⟨1, 5⟩ := window
  refine ⟨roomy, stop, counted, fs', ingested, seen, fun f low => ?_,
    reordered map.reverse map.reverse_perm.symm, repeated (map ++ map) (by simp) (by decide)⟩
  have known : f < fs.capacity := Nat.lt_trans low (by decide)
  have free := not_congr (taken f known)
  simp only [← Descriptor.covers_iff_fills, Bool.not_eq_true] at free
  rw [free]
  have all : ∀ f < 12, ¬ ((∃ d ∈ map, d.available = false ∧ d.covers f = true) ∨
      (¬ ∃ d ∈ map, d.available = true ∧ d.covers f = true) ∧ fs.isTaken f = true) ↔
        f = 2 ∨ f = 4 ∨ f = 10 ∨ f = 11 := by
    decide
  exact all f low

end Frames

end Nucleus
