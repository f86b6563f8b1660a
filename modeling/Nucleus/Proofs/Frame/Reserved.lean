import Nucleus.Proofs.Frame.Ingestion

/-!
# Reserved memory

Rounding towards the inside is safe for memory that is available, and not for memory that is
reserved: a frame that a reserved descriptor covers in part stays free if an available one covers
it to the last byte.

* `covers_iff_holds`: what a descriptor covers, in terms of its bytes.
* `free_ingested_iff`: which frames are free after a map has been ingested.
* `reserved_untouched_iff`: when none of them has a reserved byte.
-/

namespace Nucleus
open Platform

namespace Descriptor
variable {d : Descriptor} {f : Nat}

/-- The byte at `a` is one of the descriptor's. -/
def HasByte (d : Descriptor) (a : Nat) : Prop :=
  d.start ≤ a ∧ a < d.start + d.pages * firmwarePageBytes

/-- All bytes of frame `f` are the descriptor's. -/
def Holds (d : Descriptor) (f : Nat) : Prop :=
  ∀ a, f * frameBytes ≤ a → a < (f + 1) * frameBytes → d.HasByte a

/-- Some byte of frame `f` is the descriptor's. -/
def Touches (d : Descriptor) (f : Nat) : Prop :=
  ∃ a, f * frameBytes ≤ a ∧ a < (f + 1) * frameBytes ∧ d.HasByte a

theorem holds_iff : d.Holds f ↔
    d.start ≤ f * frameBytes ∧ (f + 1) * frameBytes ≤ d.start + d.pages * firmwarePageBytes :=
  Frame.bytes_within_iff

theorem Holds.touches (holds : d.Holds f) : d.Touches f := by
  have here : f * frameBytes < (f + 1) * frameBytes :=
    Nat.mul_lt_mul_of_pos_right (Nat.lt_succ_self f) (by decide)
  exact ⟨f * frameBytes, Nat.le_refl _, here, holds _ (Nat.le_refl _) here⟩

/-- Pages are frames, so a descriptor that starts with a frame covers no frame in part. -/
theorem Touches.holds (aligned : frameBytes ∣ d.start) (touches : d.Touches f) : d.Holds f := by
  obtain ⟨k, start⟩ := aligned
  obtain ⟨a, after, before, low, high⟩ := touches
  rw [holds_iff]
  simp only [frameBytes, firmwarePageBytes] at *
  omega

/-- The last bytes of all addresses are never counted. -/
theorem covers_iff_holds : d.covers f = true ↔ d.Holds f ∧ (f + 1) * frameBytes < Word.bound := by
  rw [covers_iff, holds_iff, stop, Word.satAdd, Word.satMul, Word.max, Word.bound]
  omega

end Descriptor

namespace Frames
variable {lines f : Nat} {map : List Descriptor} {fs : Frames}

theorem isTaken_full (lines f : Nat) : (full lines).isTaken f = true :=
  Bitmap.taken_full lines f

/-- Frame `f` is one that the bitmap has and that lies before the last bytes of all addresses. -/
def Known (lines f : Nat) : Prop :=
  f < (full lines).capacity ∧ (f + 1) * frameBytes < Word.bound

theorem free_ingested_iff (done : ((full lines).ingest map).run.value = .ok fs) :
    fs.isTaken f = false ↔ Known lines f ∧ (∃ d ∈ map, d.available = true ∧ d.Holds f) ∧
      ∀ d ∈ map, d.available = false → ¬ d.Holds f := by
  obtain ⟨-, -, rfl⟩ := ingest_eq_ok.mp done
  rw [free_seeded]
  constructor
  · intro ⟨known, available, unreserved⟩
    rw [isTaken_full] at available
    obtain ⟨d, here, available, covers⟩ := available.resolve_left (by simp)
    obtain ⟨holds, small⟩ := Descriptor.covers_iff_holds.mp covers
    refine ⟨⟨known, small⟩, ⟨d, here, available, holds⟩, fun d' here reserved holds => ?_⟩
    rw [unreserved d' here (Descriptor.covers_iff_holds.mpr ⟨holds, small⟩)] at reserved
    cases reserved
  · intro ⟨⟨known, small⟩, ⟨d, here, available, holds⟩, unheld⟩
    constructor
    case known => exact known
    case available =>
      exact .inr ⟨d, here, available, Descriptor.covers_iff_holds.mpr ⟨holds, small⟩⟩
    case unreserved =>
      intro d here covers
      apply Bool.of_not_eq_false
      exact fun reserved => unheld d here reserved (Descriptor.covers_iff_holds.mp covers).1

/-- Frame `f` has bytes of reserved descriptors, but no such descriptor has all of them. -/
structure PartlyReserved (map : List Descriptor) (f : Nat) : Prop where
  touched : ∃ d ∈ map, d.available = false ∧ d.Touches f
  unheld : ∀ d ∈ map, d.available = false → ¬ d.Holds f

/-- **What stays reserved, exactly.** After a map has been ingested into a new allocator, the free
frames are those that lie wholly inside available memory and not wholly inside a reserved
descriptor. So none of them has a reserved byte if and only if no frame of available memory is
reserved in part, as is the case if the reserved descriptors start with frames. -/
theorem reserved_untouched_iff (done : ((full lines).ingest map).run.value = .ok fs) :
    (∀ f, fs.isTaken f = false ↔ Known lines f ∧
      (∃ d ∈ map, d.available = true ∧ d.Holds f) ∧
      ∀ d ∈ map, d.available = false → ¬ d.Holds f) ∧
    ((∀ f, fs.isTaken f = false → ∀ d ∈ map, d.available = false → ¬ d.Touches f) ↔
      ∀ f, Known lines f → (∃ d ∈ map, d.available = true ∧ d.Holds f) →
        ¬ PartlyReserved map f) ∧
    ((∀ d ∈ map, d.available = false → frameBytes ∣ d.start) →
      ∀ f, fs.isTaken f = false → ∀ d ∈ map, d.available = false → ¬ d.Touches f) := by
  have free (f : Nat) := free_ingested_iff done (f := f)
  refine ⟨free, ?exactly, ?aligned⟩
  case exactly =>
    constructor
    · intro untouched f known usable partly
      obtain ⟨d, here, reserved, touches⟩ := partly.touched
      exact untouched f ((free f).mpr ⟨known, usable, partly.unheld⟩) d here reserved touches
    · intro whole f isFree d here reserved touches
      obtain ⟨known, usable, unheld⟩ := (free f).mp isFree
      exact whole f known usable ⟨⟨d, here, reserved, touches⟩, unheld⟩
  case aligned =>
    intro aligned f isFree d here reserved touches
    have unheld := ((free f).mp isFree).2.2
    exact unheld d here reserved (touches.holds (aligned d here reserved))

/-! ## A page between two frames -/

/-- Available memory from frame 1 to frame 4, and in the middle of it a reserved page that starts
inside frame 2 and ends inside frame 3. -/
def straddled : List Descriptor := [⟨.conventional, 0x1000, 4⟩, ⟨.reserved, 0x2800, 1⟩]

theorem ingest_straddled :
    ((full 1).ingest straddled).run.value = .ok ((full 1).seeded straddled) :=
  ingest_eq_ok.mpr ⟨⟨by decide, by decide⟩, by decide, rfl⟩

/-- Frame 4 is free, and the reserved page does not reach it. -/
theorem reserved_untouched_beside :
    ∃ fs, ((full 1).ingest straddled).run.value = .ok fs ∧ fs.isTaken 4 = false ∧
      (∃ d ∈ straddled, d.available = true ∧ d.Holds 4) ∧
      ∀ d ∈ straddled, d.available = false → ¬ d.Holds 4 := by
  have free : ((full 1).seeded straddled).isTaken 4 = false := by decide
  have usable := ((reserved_untouched_iff ingest_straddled).1 4).mp free
  exact ⟨_, ingest_straddled, free, usable.2⟩

/-- Frame 2 is free although half of it is reserved. -/
theorem partly_reserved_free :
    ∃ fs, ((full 1).ingest straddled).run.value = .ok fs ∧ fs.isTaken 2 = false ∧
      ∃ d ∈ straddled, d.available = false ∧ d.Touches 2 :=
  ⟨_, ingest_straddled, by decide, ⟨.reserved, 0x2800, 1⟩, by decide, rfl, 0x2800, by decide,
    by decide, by decide, by decide⟩

end Frames

end Nucleus
