import Nucleus.Boot
import Nucleus.Proofs.Frame.Ingestion
import Nucleus.Proofs.Frame.Serving
import Nucleus.Proofs.Paging.Identity

/-!
# Memory after bring-up

The frame bitmap covers more memory than the identity map does. Nothing in between keeps the
allocator below the end of the map, so what it hands out is mapped only as far as the firmware
reports no usable memory above.

* `initMemory_eq_ok`: what a bring-up that succeeds has done.
* `region_mapped_iff`: whether the heap's region is mapped is decided by the lowest run of usable
  frames.
* `boot_mapped_iff`: everything ever handed out is mapped if and only if every usable frame is.
-/

namespace Nucleus
open Platform

/-- The frames below this one are mapped to themselves. -/
def identityFrames : Nat := identityEnd / frameBytes

namespace Descriptor
variable {kind : MemoryType} {first n f : Nat}

/-- A descriptor that starts with a frame names its frames, as long as they are words. -/
theorem stop_pages (small : (first + n) * frameBytes < Word.bound) :
    (⟨kind, first * frameBytes, n⟩ : Descriptor).stop = (first + n) * frameBytes := by
  simp only [stop, Word.satAdd, Word.satMul, Word.max, Word.bound, firmwarePageBytes,
    frameBytes] at small ⊢
  omega

theorem covers_pages (small : (first + n) * frameBytes < Word.bound) :
    (⟨kind, first * frameBytes, n⟩ : Descriptor).covers f = true ↔ first ≤ f ∧ f < first + n := by
  rw [covers_iff, stop_pages small]
  simp only [frameBytes]
  omega

end Descriptor

/-- The tree at `root` translates every address of frame `f` to itself. -/
def Memory.Identity (m : Memory) (root f : Nat) : Prop :=
  ∀ a, f * frameBytes ≤ a → a < (f + 1) * frameBytes → m.translate root a = some a

theorem identity_iff {m : Memory} {root f : Nat} (built : IdentityMap.Built m root)
    (placed : IdentityMap.Placed root) : m.Identity root f ↔ f < identityFrames := by
  have whole : identityEnd = identityFrames * frameBytes := rfl
  constructor
  · intro same
    have start := same (f * frameBytes) (Nat.le_refl _)
      (Nat.mul_lt_mul_of_pos_right (Nat.lt_succ_self f) (by decide))
    have low := (IdentityMap.translate_eq_self_iff built placed).mp start
    rw [whole] at low
    exact Nat.lt_of_mul_lt_mul_right low
  · intro low a _ high
    refine (IdentityMap.translate_eq_self_iff built placed).mpr ?_
    rw [whole]
    exact Nat.lt_of_lt_of_le high (Nat.mul_le_mul_right _ low)

namespace Boot
variable {σ : Type} {b b' : Boot} {map : List Descriptor} {root : Nat} {region : Region}

/-- How bring-up leaves everything but the allocator. -/
def left (b : Boot) (root : Nat) (frames : Frames) : Boot where
  frames := .new frames
  memory := (IdentityMap.build b.memory root).value
  interrupts := b.interrupts
  roots := b.roots ++ [root * frameBytes]

theorem value_bootstrap (fs : Frames) :
    (Region.bootstrap fs).value =
      (fs.allocate heapFrames).value.map fun r => (⟨r.1, heapFrames⟩, r.2) := by
  rw [Region.bootstrap, Region.reserve, Logged.value_bind]
  cases (fs.allocate heapFrames).value <;> rfl

/-- What is loaded, and what memory holds by then, does not depend on the request for the heap. -/
theorem value_bringUpOn (load : Nat → Memory → σ → σ) (fs : Frames) (m : Memory) (p : σ)
    (map : List Descriptor) (root : Nat) :
    let built := (IdentityMap.build m root).value
    let loaded := load (root * frameBytes) built p
    (bringUpOn load fs m p map root).run.value = (fs.ingest map).run.value.map fun fs =>
      match (fs.allocate heapFrames).value with
      | .error e => (.error (.alloc e), fs, built, loaded)
      | .ok (f, fs') => (.ok ⟨f, heapFrames⟩, fs', built, loaded) := by
  intro built loaded
  simp only [bringUpOn, Checked.value_run_bind, Checked.value_run_ofLogged,
    Checked.value_run_note, value_bootstrap]
  cases (fs.ingest map).run.value with
  | error p => rfl
  | ok fs =>
    simp only [Except.bind, Except.map]
    cases (fs.allocate heapFrames).value <;> rfl

theorem value_initMemory (b : Boot) (map : List Descriptor) (root : Nat) :
    (b.initMemory map root).run.value =
      (b.frames.value.ingest map).run.value.map fun fs =>
        match (fs.allocate heapFrames).value with
        | .error e => (.error (.alloc e), b.left root fs)
        | .ok (f, fs') => (.ok ⟨f, heapFrames⟩, b.left root fs') := by
  simp only [initMemory, bringUp, Checked.value_run_bind, SpinLock.value_lock, value_bringUpOn]
  cases (b.frames.value.ingest map).run.value with
  | error p => rfl
  | ok fs =>
    simp only [Except.bind, Except.map]
    cases (fs.allocate heapFrames).value with
    | error e => simp [left, SpinLock.unlock, SpinLock.new, Interrupts.unmask_mask]
    | ok r => simp [left, SpinLock.unlock, SpinLock.new, Interrupts.unmask_mask]

/-- A bring-up that succeeds has seeded the allocator and taken the lowest run that the heap fits
in. -/
theorem initMemory_eq_ok :
    (b.initMemory map root).run.value = .ok (.ok region, b') ↔
      Countable map ∧ 1 ≤ min (mapEnd map) b.frames.value.capacity ∧
      ∃ fs, ((b.frames.value.seeded map).allocate heapFrames).value = .ok (region.firstFrame, fs) ∧
        region.frames = heapFrames ∧ b' = b.left root fs := by
  rw [value_initMemory]
  constructor
  · intro up
    cases ingested : (b.frames.value.ingest map).run.value with
    | error p =>
      rw [ingested] at up
      cases up
    | ok seeded =>
      obtain ⟨countable, window, rfl⟩ := Frames.ingest_eq_ok.mp ingested
      rw [ingested, Except.map] at up
      cases granted : ((b.frames.value.seeded map).allocate heapFrames).value with
      | error e =>
        rw [granted] at up
        cases up
      | ok r =>
        rw [granted] at up
        cases up
        exact ⟨countable, window, _, rfl, rfl, rfl⟩
  · rintro ⟨countable, window, fs, granted, whole, rfl⟩
    rw [Frames.ingest_eq_ok.mpr ⟨countable, window, rfl⟩, Except.map, granted, ← whole]

/-- The heap lies on the lowest run of frames that the map offers. -/
theorem lowest_of_initMemory (up : (b.initMemory map root).run.value = .ok (.ok region, b')) :
    (∀ f, Frames.Run.has (region.firstFrame, region.frames) f → b.frames.value.Offered map f) ∧
      ∀ s, (∀ f, s ≤ f → f < s + heapFrames → b.frames.value.Offered map f) →
        region.firstFrame ≤ s := by
  obtain ⟨-, -, fs, granted, whole, -⟩ := initMemory_eq_ok.mp up
  obtain ⟨positive, fits, least, -⟩ := Frames.allocate_eq_ok.mp granted
  refine ⟨fun f ⟨low, high⟩ => ?_, fun s offered => ?_⟩
  · rw [whole] at high
    exact (Frames.fits_seeded_iff positive).mp fits f low high
  · exact least s ((Frames.fits_seeded_iff positive).mpr offered)

theorem region_mapped_iff (bare : IdentityMap.Bare b.memory root)
    (placed : IdentityMap.Placed root)
    (up : (b.initMemory map root).run.value = .ok (.ok region, b')) :
    (∀ a, region.start ≤ a → a < region.stop → b'.memory.translate root a = some a) ↔
      ∃ s, s + heapFrames ≤ identityFrames ∧
        ∀ f, s ≤ f → f < s + heapFrames → b.frames.value.Offered map f := by
  obtain ⟨offered, lowest⟩ := lowest_of_initMemory up
  obtain ⟨-, -, fs, -, whole, rfl⟩ := initMemory_eq_ok.mp up
  have built := IdentityMap.built_build bare
  have positive : 0 < heapFrames := by decide
  have stop : region.stop = (region.firstFrame + heapFrames) * frameBytes := by
    rw [Region.stop, Region.start, Region.size, whole, Nat.add_mul]
  have bytes : identityEnd = identityFrames * frameBytes := rfl
  constructor
  · intro mapped
    have last := mapped (region.stop - 1)
      (by rw [stop, Region.start]; simp only [frameBytes]; omega)
      (by rw [stop]; simp only [frameBytes]; omega)
    have low := (IdentityMap.translate_eq_self_iff built placed).mp last
    refine ⟨region.firstFrame, ?_, fun f low high => offered f ⟨low, by rw [whole]; exact high⟩⟩
    rw [stop, bytes] at low
    simp only [frameBytes] at low
    omega
  · rintro ⟨s, low, run⟩ a _ high
    refine (IdentityMap.translate_eq_self_iff built placed).mpr ?_
    have before := lowest s run
    have within : region.firstFrame + heapFrames ≤ identityFrames :=
      Nat.le_trans (Nat.add_le_add_right before _) low
    rw [stop] at high
    rw [bytes]
    exact Nat.lt_of_lt_of_le high (Nat.mul_le_mul_right _ within)

/-- What is free in the window once the heap has its region. -/
theorem offered_of_free (up : (b.initMemory map root).run.value = .ok (.ok region, b')) {f : Nat} :
    (b'.frames.value.window.contains f = true ∧ b'.frames.value.isTaken f = false) ↔
      b.frames.value.Offered map f ∧ ¬ Frames.Run.has (region.firstFrame, region.frames) f := by
  obtain ⟨countable, -, fs, granted, whole, rfl⟩ := initMemory_eq_ok.mp up
  obtain ⟨-, -, -, rfl⟩ := Frames.allocate_eq_ok.mp granted
  change ((b.frames.value.seeded map).window.contains f = true ∧
    ((b.frames.value.seeded map).mark region.firstFrame heapFrames).isTaken f = false) ↔ _
  rw [Frames.free_mark, ← and_assoc, ← Frames.offered_iff, whole]
  refine and_congr_right fun offered => ?_
  rw [← Bool.not_eq_true, Frames.among_iff (offered.lt_max countable)]

theorem handed_out_mapped_iff (bare : IdentityMap.Bare b.memory root)
    (placed : IdentityMap.Placed root)
    (up : (b.initMemory map root).run.value = .ok (.ok region, b')) :
    (∀ fs runs, Frames.Served b'.frames.value [(region.firstFrame, region.frames)] fs runs →
      ∀ r ∈ runs, ∀ f, r.has f → b'.memory.Identity root f) ↔
    ∀ f, b.frames.value.Offered map f → f < identityFrames := by
  obtain ⟨offered, -⟩ := lowest_of_initMemory up
  have mapped (f : Nat) : b'.memory.Identity root f ↔ f < identityFrames := by
    obtain ⟨-, -, fs, -, -, rfl⟩ := initMemory_eq_ok.mp up
    exact identity_iff (IdentityMap.built_build bare) placed
  constructor
  · intro all f here
    by_cases heap : Frames.Run.has (region.firstFrame, region.frames) f
    · exact (mapped f).mp (all _ _ .start _ (.head _) f heap)
    · obtain ⟨inside, free⟩ := (offered_of_free up).mpr ⟨here, heap⟩
      have small := here.lt_max (initMemory_eq_ok.mp up).1
      obtain ⟨fs, runs, served⟩ := Frames.Served.start.exists_run free inside small
      exact (mapped f).mp (all fs _ served _ (.head _) f ⟨Nat.le_refl f, Nat.lt_succ_self f⟩)
  · intro low fs runs served r out f inside
    have kept := served.within (Q := fun f => f < identityFrames)
      (fun g here free => low g ((offered_of_free up).mp ⟨here, free⟩).1) ?_
    · exact (mapped f).mpr (kept.2 r out f inside)
    · intro r heap g has
      rw [List.mem_singleton.mp heap] at has
      exact low g (offered g has)

/-- **Memory after bring-up, exactly.** The map that was loaded leads the addresses below its end to
themselves, and no others. So the heap's region is mapped if and only if the firmware's map offers
a run for it below that end; and what is handed out from then on, while runs come and go, is mapped
if and only if every frame is that the map offers. -/
theorem boot_mapped_iff (bare : IdentityMap.Bare b.memory root)
    (placed : IdentityMap.Placed root)
    (up : (b.initMemory map root).run.value = .ok (.ok region, b')) :
    b'.roots = b.roots ++ [root * frameBytes] ∧
    (∀ a, b'.memory.translate root a = some a ↔ a < identityEnd) ∧
    ((∀ a, region.start ≤ a → a < region.stop → b'.memory.translate root a = some a) ↔
      ∃ s, s + heapFrames ≤ identityFrames ∧
        ∀ f, s ≤ f → f < s + heapFrames → b.frames.value.Offered map f) ∧
    ((∀ fs runs, Frames.Served b'.frames.value [(region.firstFrame, region.frames)] fs runs →
        ∀ r ∈ runs, ∀ f, r.has f → b'.memory.Identity root f) ↔
      ∀ f, b.frames.value.Offered map f → f < identityFrames) := by
  refine ⟨?roots, ?addresses, region_mapped_iff bare placed up,
    handed_out_mapped_iff bare placed up⟩
  case roots =>
    obtain ⟨-, -, fs, -, -, rfl⟩ := initMemory_eq_ok.mp up
    rfl
  case addresses =>
    obtain ⟨-, -, fs, -, -, rfl⟩ := initMemory_eq_ok.mp up
    exact fun a => IdentityMap.translate_eq_self_iff (IdentityMap.built_build bare) placed

/-! ## One run of usable memory -/

/-- Usable memory for just the heap, from frame `first` on. -/
def lone (first : Nat) : Descriptor := ⟨.conventional, first * frameBytes, heapFrames⟩

theorem stop_lone {first : Nat} (small : (first + heapFrames) * frameBytes < Word.bound) :
    (lone first).stop = (first + heapFrames) * frameBytes := Descriptor.stop_pages small

theorem covers_lone {first f : Nat} (small : (first + heapFrames) * frameBytes < Word.bound) :
    (lone first).covers f = true ↔ first ≤ f ∧ f < first + heapFrames :=
  Descriptor.covers_pages small

theorem countable_lone {first : Nat} (small : (first + heapFrames) * frameBytes < Word.bound) :
    Countable [lone first] := by
  have count : (lone first).firstFrame + (lone first).frameCount < Word.bound := by
    have start : (lone first).firstFrame = first := by
      simp only [lone, Descriptor.firstFrame, Frame.atOrAfter, frameBytes]
      omega
    rw [Descriptor.frameCount, stop_lone small, start]
    simp only [Frame.containing, frameBytes] at small ⊢
    omega
  have total : Ingestion.total ([lone first].filter Descriptor.available) =
      (lone first).frameCount := Nat.add_zero _
  refine ⟨by omega, fun d here _ => ?_⟩
  rw [List.mem_singleton.mp here]
  omega

theorem offered_lone {lines first f : Nat} (positive : 1 ≤ first)
    (known : first + heapFrames ≤ 64 * lines)
    (small : (first + heapFrames) * frameBytes < Word.bound) :
    (Frames.full lines).Offered [lone first] f ↔ first ≤ f ∧ f < first + heapFrames := by
  have capacity := Frames.capacity_full lines
  rw [← covers_lone small]
  constructor
  · rintro ⟨⟨-, free | ⟨d, here, -, covers⟩, -⟩, -, -⟩
    · rw [Frames.isTaken, Frames.full, Bitmap.taken_full] at free
      cases free
    · rw [List.mem_singleton.mp here] at covers
      exact covers
  · intro covers
    obtain ⟨low, high⟩ := (covers_lone small).mp covers
    have inside := Frames.lt_mapEnd (List.mem_singleton.mpr rfl) rfl covers
    refine ⟨⟨by omega, .inr ⟨_, .head _, rfl, covers⟩, fun d here _ => ?_⟩, by omega, inside⟩
    rw [List.mem_singleton.mp here]
    rfl

theorem initMemory_lone (lines first root : Nat) (positive : 1 ≤ first)
    (known : first + heapFrames ≤ 64 * lines)
    (small : (first + heapFrames) * frameBytes < Word.bound) :
    ∃ b', ((new lines root).initMemory [lone first] root).run.value =
      .ok (.ok ⟨first, heapFrames⟩, b') := by
  have offered (f : Nat) := offered_lone positive known small (f := f)
  have whole : 0 < heapFrames := by decide
  have head := (offered first).mpr ⟨Nat.le_refl first, by omega⟩
  have window : 1 ≤ min (mapEnd [lone first]) (Frames.full lines).capacity := by
    have last := head.inside
    have known := head.known
    omega
  have fits := (Frames.fits_seeded_iff whole (s := first)).mpr fun f low high =>
    (offered f).mpr ⟨low, high⟩
  have least (s : Nat) (other : _) : first ≤ s :=
    ((offered s).mp ((Frames.fits_seeded_iff whole).mp other s (Nat.le_refl s) (by omega))).1
  have granted := Frames.allocate_eq_ok.mpr ⟨whole, fits, least, rfl⟩
  exact ⟨_, initMemory_eq_ok.mpr ⟨countable_lone small, window, _, granted, rfl, rfl⟩⟩

theorem heap_below_end :
    IdentityMap.Bare (new 1024 0).memory 0 ∧ IdentityMap.Placed 0 ∧ ∃ b',
      ((new 1024 0).initMemory [lone 0x100] 0).run.value = .ok (.ok ⟨0x100, heapFrames⟩, b') ∧
      b'.roots = [0] ∧
      ∀ a, 0x100000 ≤ a → a < 0x8100000 → b'.memory.translate 0 a = some a := by
  have bare : IdentityMap.Bare (new 1024 0).memory 0 := IdentityMap.bare_clear .zero 0
  have placed : IdentityMap.Placed 0 := Nat.le_of_ble_eq_true rfl
  obtain ⟨b', up⟩ := initMemory_lone 1024 0x100 0 (by decide) (by decide) (by decide)
  obtain ⟨roots, -, mapped, -⟩ := boot_mapped_iff bare placed up
  refine ⟨bare, placed, b', up, roots, mapped.mpr ⟨0x100, by decide, fun f low high => ?_⟩⟩
  exact (offered_lone (by decide) (by decide) (by decide)).mpr ⟨low, high⟩

/-- Memory from the end of the identity map on is usable, and the heap is put there. -/
theorem heap_past_end :
    ∃ region b', ((new lineCount 0).initMemory [lone identityFrames] 0).run.value =
        .ok (.ok region, b') ∧ region.start < region.stop ∧
      b'.memory.translate 0 region.start ≠ some region.start := by
  obtain ⟨b', up⟩ := initMemory_lone lineCount identityFrames 0 (by decide) (by decide) (by decide)
  refine ⟨_, b', up, by decide, ?_⟩
  obtain ⟨-, -, fs, -, -, rfl⟩ := initMemory_eq_ok.mp up
  have built := IdentityMap.built_build (IdentityMap.bare_clear .zero 0)
  intro mapped
  have low := (IdentityMap.translate_eq_self_iff built (Nat.le_of_ble_eq_true rfl)).mp mapped
  revert low
  decide

end Boot

end Nucleus
