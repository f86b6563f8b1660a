import Nucleus.Proofs.Boot.Outcomes
import Nucleus.Proofs.Frame.Coverage

/-!
# Bring-up as a whole

Seeding, paging and the heap in one: which run of frames the heap is put on follows from the
descriptors alone, and the identity map is loaded once, complete, before it is known whether there
is such a run.

* `HeapRun`: the frames that the heap could be put on, by the bytes of the descriptors.
* `heapRun_iff`: they are the ones that a fresh allocator offers after it was seeded.
* `loaded_once`: the processor sees one load, of the identity map that is left.
* `HeapPlaced`: the heap is on the lowest run that there is, and nothing else was taken.
* `BroughtUp`, `brought_up`: all that comes of a bring-up.
-/

namespace Nucleus
open Platform

/-- The heap fits on the frames from `s` on: they lie past frame 0 and before `stop`, and each is
filled by an available descriptor and by no other. -/
structure HeapRun (stop : Nat) (map : List Descriptor) (s : Nat) : Prop where
  first : 1 ≤ s
  last : s + heapFrames ≤ stop
  available : ∀ f, s ≤ f → f < s + heapFrames → ∃ d ∈ map, d.available = true ∧ d.Fills f
  unreserved : ∀ f, s ≤ f → f < s + heapFrames → ∀ d ∈ map, d.Fills f → d.available = true

namespace Frames

theorem taken_mark_iff {fs : Frames} {start n f : Nat} (small : start + n ≤ Word.max) :
    (fs.mark start n).isTaken f = true ↔ fs.isTaken f = true ∨ start ≤ f ∧ f < start + n := by
  rw [← not_iff_not, Bool.not_eq_true, free_mark, not_or, Bool.not_eq_true]
  rw [← Bool.not_eq_true (among start n f), among, Bool.and_eq_true, decide_eq_true_iff,
    decide_eq_true_iff, Word.satAdd, Nat.min_eq_left small]

end Frames

/-- A descriptor that starts with a frame fills its frames, as long as they are words. -/
theorem Descriptor.fills_pages {kind : MemoryType} {first n f : Nat}
    (small : (first + n) * frameBytes < Word.bound) :
    (⟨kind, first * frameBytes, n⟩ : Descriptor).Fills f ↔ first ≤ f ∧ f < first + n :=
  covers_iff_fills.symm.trans (covers_pages small)

namespace Boot
variable {σ : Type} {b b' : Boot} {map : List Descriptor} {root lines s : Nat}

/-- A fresh allocator offers what the map says is available. -/
theorem offered_full_iff {f : Nat} : (Frames.full lines).Offered map f ↔
    (1 ≤ f ∧ f < min (availableEnd map) (Frames.full lines).capacity) ∧
      (∃ d ∈ map, d.available = true ∧ d.Fills f) ∧ ∀ d ∈ map, d.Fills f → d.available = true := by
  simp only [← Descriptor.covers_iff_fills]
  constructor
  · rintro ⟨⟨known, free | available, unreserved⟩, positive, inside⟩
    · rw [Frames.isTaken, Frames.full, Bitmap.taken_full] at free
      cases free
    · rw [mapEnd_eq] at inside
      exact ⟨⟨positive, Nat.lt_min.mpr ⟨inside, known⟩⟩, available, unreserved⟩
  · rintro ⟨⟨positive, inside⟩, available, unreserved⟩
    obtain ⟨low, known⟩ := Nat.lt_min.mp inside
    exact ⟨⟨known, .inr available, unreserved⟩, positive, mapEnd_eq map ▸ low⟩

/-- The runs for the heap are those that a fresh allocator can serve after it was seeded. -/
theorem heapRun_iff : HeapRun (min (availableEnd map) (Frames.full lines).capacity) map s ↔
    ((Frames.full lines).seeded map).bitmap.Fits ((Frames.full lines).seeded map).window
      heapFrames s := by
  rw [Frames.fits_seeded_iff (by decide)]
  constructor
  · rintro ⟨first, last, available, unreserved⟩ f low high
    exact offered_full_iff.mpr ⟨⟨Nat.le_trans first low, Nat.lt_of_lt_of_le high last⟩,
      available f low high, unreserved f low high⟩
  · intro offered
    have all f low high := offered_full_iff.mp (offered f low high)
    have head := (all s (Nat.le_refl s) (Nat.lt_add_of_pos_right (by decide))).1
    have tail := (all (s + (heapFrames - 1)) (Nat.le_add_right _ _)
      (Nat.add_lt_add_left (by decide) s)).1
    exact ⟨head.1, tail.2, fun f low high => (all f low high).2.1,
      fun f low high => (all f low high).2.2⟩

/-! ## The load of the root -/

/-- Every processor sees one load, of the map that is left, whatever the answer. -/
theorem loaded_once (load : Nat → Memory → σ → σ) (p : σ) {answer : Except KernelError Region}
    (up : (b.initMemory map root).run.value = .ok (answer, b')) :
    (bringUpOn load b.frames.value b.memory p map root).run.value =
      .ok (answer, b'.frames.value, b'.memory, load (root * frameBytes) b'.memory p) := by
  rw [value_initMemory] at up
  rw [value_bringUpOn]
  cases ingested : (b.frames.value.ingest map).run.value with
  | error p =>
    rw [ingested] at up
    cases up
  | ok fs =>
    rw [ingested] at up
    simp only [Except.map] at up ⊢
    cases granted : (fs.allocate heapFrames).value with
    | error e =>
      rw [granted] at up
      cases up
      rfl
    | ok r =>
      rw [granted] at up
      cases up
      rfl

/-! ## The heap -/

/-- The heap was put on the lowest run that there is, and of the frames that were free only those of
its region were taken. -/
structure HeapPlaced (stop : Nat) (map : List Descriptor) (ingested : Frames) (region : Region)
    (left : Frames) : Prop where
  run : HeapRun stop map region.firstFrame
  whole : region.frames = heapFrames
  least : ∀ s, HeapRun stop map s → region.firstFrame ≤ s
  taken : ∀ f, left.isTaken f = true ↔ ingested.isTaken f = true ∨
    region.firstFrame ≤ f ∧ f < region.firstFrame + region.frames
  capacity : left.capacity = ingested.capacity
  window : left.window = ingested.window

/-- A map with available memory past frame 0 opens a window. -/
theorem window_of_available
    (available : ∃ d ∈ map, d.available = true ∧
      (1 ≤ Frame.atOrAfter d.start ∨ 1 ≤ Frame.containing d.stop)) : 1 ≤ availableEnd map := by
  obtain ⟨d, here, kind, past⟩ := available
  rw [← mapEnd_eq]
  apply lt_mapEnd_iff.mpr
  refine ⟨d, here, kind, ?_⟩
  rw [Descriptor.frameCount, Descriptor.firstFrame]
  omega

/-- The heap is put on the run that the request for it is granted with. -/
theorem heapPlaced_of_granted {first : Nat} {left : Frames} (countable : Countable map)
    (granted : (((Frames.full lines).seeded map).allocate heapFrames).value = .ok (first, left)) :
    HeapPlaced (min (availableEnd map) (Frames.full lines).capacity) map
      ((Frames.full lines).seeded map) ⟨first, heapFrames⟩ left := by
  obtain ⟨-, fits, least, rfl⟩ := Frames.allocate_eq_ok.mp granted
  have run := heapRun_iff.mpr fits
  have small : first + heapFrames ≤ Word.max := by
    have last := run.last
    have bound := countable.mapEnd_lt
    rw [mapEnd_eq] at bound
    rw [Word.max]
    omega
  exact ⟨run, rfl, fun s other => least s (heapRun_iff.mp other),
    fun f => Frames.taken_mark_iff small, Frames.capacity_mark _ _ _, rfl⟩

/-- What a bring-up leaves that was seeded as `ingested`, with a window up to `stop`. -/
structure BroughtUp (b : Boot) (map : List Descriptor) (root stop : Nat) (ingested : Frames)
    (answer : Except KernelError Region) (b' : Boot) : Prop where
  /-- Every processor sees one load, of the identity map, and memory is by then as it is left. -/
  load : ∀ (σ : Type) (load : Nat → Memory → σ → σ) (p : σ),
    (bringUpOn load b.frames.value b.memory p map root).run.value =
      .ok (answer, b'.frames.value, b'.memory, load (root * frameBytes) b'.memory p)
  roots : b'.roots = b.roots ++ [root * frameBytes]
  tables : b'.memory = (IdentityMap.build b.memory root).value
  region_iff : (∃ region, answer = .ok region) ↔ ∃ s, HeapRun stop map s
  placed : ∀ region, answer = .ok region → HeapPlaced stop map ingested region b'.frames.value
  short : (∀ s, ¬HeapRun stop map s) →
    answer = .error (.alloc (.outOfMemory heapFrames)) ∧ b'.frames.value = ingested
  interrupts : b'.interrupts = b.interrupts
  lock : b'.frames.held = b.frames.held

/-- A bring-up that is granted its request has placed the heap. -/
theorem BroughtUp.of_placed {stop : Nat} {ingested left : Frames} {region : Region}
    (lock : b.frames.held = false)
    (up : (b.initMemory map root).run.value = .ok (.ok region, b.left root left))
    (placed : HeapPlaced stop map ingested region left) :
    BroughtUp b map root stop ingested (.ok region) (b.left root left) where
  load _ load p := loaded_once load p up
  roots := rfl
  tables := rfl
  region_iff := iff_of_true ⟨region, rfl⟩ ⟨region.firstFrame, placed.run⟩
  placed := by
    rintro region ⟨⟩
    exact placed
  short none := absurd placed.run (none region.firstFrame)
  interrupts := rfl
  lock := lock.symm

/-- A bring-up that finds no run for the heap has loaded the map all the same. -/
theorem BroughtUp.of_none {stop : Nat} {ingested : Frames} (lock : b.frames.held = false)
    (up : (b.initMemory map root).run.value =
      .ok (.error (.alloc (.outOfMemory heapFrames)), b.left root ingested))
    (none : ∀ s, ¬HeapRun stop map s) :
    BroughtUp b map root stop ingested (.error (.alloc (.outOfMemory heapFrames)))
      (b.left root ingested) where
  load _ load p := loaded_once load p up
  roots := rfl
  tables := rfl
  region_iff := by
    constructor
    · rintro ⟨region, ⟨⟩⟩
    · rintro ⟨s, run⟩
      exact absurd run (none s)
  placed := by rintro region ⟨⟩
  short _ := ⟨rfl, rfl⟩
  interrupts := rfl
  lock := lock.symm

/-- **Bring-up as a whole.** Take a fresh allocator of any size but none, and any map with available
memory past frame 0 and no more than a word can count. Bring-up comes to an answer. On the way the
identity map is loaded once, after its tables were filled in, whatever the answer is. There is a
region for the heap if and only if there is a run of frames for it in the window, each filled by an
available descriptor and by no other; it is the lowest such run then, and nothing else is taken.
Otherwise a shortage of memory is reported, and the allocator is as it was seeded. Interrupts and
the lock are as they were. -/
theorem brought_up (b : Boot) (lines root : Nat) (map : List Descriptor)
    (fresh : b.frames = .new (.full lines)) (roomy : 0 < lines)
    (words : ∀ d ∈ map, d.start < Word.bound)
    (available : ∃ d ∈ map, d.available = true ∧
      (1 ≤ Frame.atOrAfter d.start ∨ 1 ≤ Frame.containing d.stop))
    (counted : availableFrames map < Word.bound) :
    let stop := min (availableEnd map) (Frames.full lines).capacity
    ∃ ingested answer b', ((Frames.full lines).ingest map).run.value = .ok ingested ∧
      ingested.window = ⟨1, stop⟩ ∧ (b.initMemory map root).run.value = .ok (answer, b') ∧
      BroughtUp b map root stop ingested answer b' := by
  intro stop
  have window := window_of_available available
  have some : 0 < (Frames.full lines).capacity := by
    rw [Frames.capacity_full]
    omega
  have countable := (countable_iff words).mpr counted
  have seeded := Frames.ingest_congr words some window (fun _ => Iff.rfl) counted
  have value : b.frames.value = .full lines := congrArg SpinLock.value fresh
  have lock : b.frames.held = false := congrArg SpinLock.held fresh
  have opened : ((Frames.full lines).seeded map).window = ⟨1, stop⟩ := by
    rw [Frames.seeded, mapEnd_eq]
  cases granted : (((Frames.full lines).seeded map).allocate heapFrames).value with
  | ok r =>
    have placed := heapPlaced_of_granted countable granted
    have up : (b.initMemory map root).run.value =
        .ok (.ok ⟨r.1, heapFrames⟩, b.left root r.2) := by
      rw [value_initMemory, value, seeded, Except.map, granted]
    exact ⟨_, _, _, seeded, opened, up, .of_placed lock up placed⟩
  | error e =>
    obtain ⟨rfl, nowhere⟩ := (Frames.allocate_eq_error (by decide)).mp granted
    have none (s : Nat) : ¬HeapRun stop map s := fun run => nowhere s (heapRun_iff.mp run)
    have up : (b.initMemory map root).run.value =
        .ok (.error (.alloc (.outOfMemory heapFrames)),
          b.left root ((Frames.full lines).seeded map)) := by
      rw [value_initMemory, value, seeded, Except.map, granted]
    exact ⟨_, _, _, seeded, opened, up, .of_none lock up none⟩

/-! ## More memory than the heap needs -/

/-- Usable memory for more than the heap, from frame 1 on. -/
def wide : Descriptor := ⟨.conventional, 0x1000, 40000⟩

theorem fills_wide {f : Nat} : wide.Fills f ↔ 1 ≤ f ∧ f < 1 + 40000 := by
  have small : (1 + 40000) * frameBytes < Word.bound := by decide
  exact Descriptor.fills_pages small

/-- The page of frame 2 is reserved, so the heap comes behind it. The processor counts the loads. -/
theorem brought_up_behind_reserved :
    let b := new 1024 0
    let map := [wide, ⟨.reserved, 0x2000, 1⟩]
    b.frames = .new (.full 1024) ∧ 0 < 1024 ∧ (∀ d ∈ map, d.start < Word.bound) ∧
      (∃ d ∈ map, d.available = true ∧
        (1 ≤ Frame.atOrAfter d.start ∨ 1 ≤ Frame.containing d.stop)) ∧
      availableFrames map < Word.bound ∧
      ∃ b', (b.initMemory map 0).run.value = .ok (.ok ⟨3, heapFrames⟩, b') ∧ b'.roots = [0] ∧
        (bringUpOn (fun _ _ loads => loads + 1) b.frames.value b.memory 0 map 0).run.value =
          .ok (.ok ⟨3, heapFrames⟩, b'.frames.value, b'.memory, 1) := by
  intro b map
  have words : ∀ d ∈ map, d.start < Word.bound := by decide
  have available : ∃ d ∈ map, d.available = true ∧
      (1 ≤ Frame.atOrAfter d.start ∨ 1 ≤ Frame.containing d.stop) := by decide
  have counted : availableFrames map < Word.bound := by decide
  have stop : min (availableEnd map) (Frames.full 1024).capacity = 40001 := by
    rw [Frames.capacity_full]
    decide
  obtain ⟨ingested, answer, b', -, -, up, brought⟩ :=
    brought_up b 1024 0 map rfl (by decide) words available counted
  rw [stop] at brought
  have page (f : Nat) : (⟨.reserved, 0x2000, 1⟩ : Descriptor).Fills f ↔ 2 ≤ f ∧ f < 2 + 1 := by
    have small : (2 + 1) * frameBytes < Word.bound := by decide
    exact Descriptor.fills_pages small
  have behind : HeapRun 40001 map 3 := by
    refine ⟨by decide, by decide, fun f low high => ⟨wide, .head _, rfl, ?_⟩,
      fun f low _ d here fills => ?_⟩
    · simp only [heapFrames] at high
      exact fills_wide.mpr ⟨by omega, by omega⟩
    · rcases List.mem_cons.mp here with rfl | here
      · rfl
      · rw [List.mem_singleton.mp here, page] at fills
        omega
  obtain ⟨⟨first, frames⟩, rfl⟩ := brought.region_iff.mpr ⟨3, behind⟩
  obtain ⟨run, whole, least, -, -, -⟩ := brought.placed _ rfl
  cases whole
  -- a run that starts earlier has the reserved page in it
  have third : first = 3 := by
    have low := least 3 behind
    have positive := run.first
    apply Nat.le_antisymm low
    apply Nat.le_of_not_lt
    intro early
    have reserved := run.unreserved 2 (Nat.le_of_lt_succ early)
      (by simp only [heapFrames]; omega) _ (.tail _ (.head _)) ((page 2).mpr (by decide))
    cases reserved
  cases third
  exact ⟨rfl, by decide, words, available, counted, b', up, brought.roots,
    brought.load Nat _ 0⟩

/-- The window ends with the bitmap. Memory for the heap that lies behind it, whole and available,
is not found. -/
theorem heap_behind_bitmap :
    0 < 16 ∧ (∀ d ∈ [wide], d.start < Word.bound) ∧
      (∃ d ∈ [wide], d.available = true ∧
        (1 ≤ Frame.atOrAfter d.start ∨ 1 ≤ Frame.containing d.stop)) ∧
      availableFrames [wide] < Word.bound ∧ HeapRun (availableEnd [wide]) [wide] 1 ∧
      ∃ b', ((new 16 0).initMemory [wide] 0).run.value =
        .ok (.error (.alloc (.outOfMemory heapFrames)), b') := by
  have words : ∀ d ∈ [wide], d.start < Word.bound := by decide
  have counted : availableFrames [wide] < Word.bound := by decide
  have stop : availableEnd [wide] = 40001 := by decide
  have few : (Frames.full 16).capacity = 1024 := Frames.capacity_full 16
  have run : HeapRun (availableEnd [wide]) [wide] 1 := by
    refine ⟨by decide, by decide, fun f low high => ⟨wide, .head _, rfl, ?_⟩,
      fun f _ _ d here _ => List.mem_singleton.mp here ▸ rfl⟩
    simp only [heapFrames] at high
    exact fills_wide.mpr ⟨low, by omega⟩
  have nowhere (s : Nat) : ¬((Frames.full 16).seeded [wide]).bitmap.Fits
      ((Frames.full 16).seeded [wide]).window heapFrames s := by
    intro fits
    have last : s + heapFrames ≤ min (mapEnd [wide]) (Frames.full 16).capacity := fits.stop
    rw [few] at last
    simp only [heapFrames] at last
    omega
  have value : (new 16 0).frames.value = .full 16 := rfl
  have seeded := Frames.ingest_congr words (by rw [few]; decide) (by rw [stop]; decide)
    (fun _ => Iff.rfl) counted
  have short := (Frames.allocate_eq_error (by decide)).mpr ⟨rfl, nowhere⟩
  refine ⟨by decide, words, by decide, counted, run,
    (new 16 0).left 0 ((Frames.full 16).seeded [wide]), ?_⟩
  rw [value_initMemory, value, seeded, Except.map, short]

end Boot

end Nucleus
