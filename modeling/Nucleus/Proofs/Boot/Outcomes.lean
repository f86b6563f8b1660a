import Nucleus.Proofs.Boot

/-!
# Outcomes of bring-up

What bring-up comes to, for every map of the firmware. That the heap does not fit into a map is
reported. That a map has no available memory is not, nor that it has more than a word can count: a
check of the window or of the counter stops the kernel.

* `Seedable`: the maps that pass both checks.
* `seed_cases`: which check stops the others.
* `exists_answer`: what is answered once the allocator is seeded.
* `bring_up_outcomes`: all of it.
-/

namespace Nucleus
open Platform

namespace Descriptor
variable {d : Descriptor}

/-- All but an empty descriptor at address 0 end past frame 0. -/
theorem last_pos_iff : 0 < d.firstFrame + d.frameCount ↔ d.start ≠ 0 ∨ d.pages ≠ 0 := by
  simp only [frameCount, firstFrame, stop, Frame.atOrAfter, Frame.containing, Word.satAdd,
    Word.satMul, Word.max, Word.bound, frameBytes, firmwarePageBytes]
  omega

end Descriptor

namespace Frames
variable {fs fs' : Frames} {map : List Descriptor}

/-- The map `map` has available memory past frame 0, and no more than a word can count, and the
bitmap has a frame at all. -/
structure Seedable (fs : Frames) (map : List Descriptor) : Prop where
  counted : availableFrames map < Word.bound
  roomy : 0 < fs.capacity
  available : ∃ d ∈ map, d.available = true ∧ (d.start ≠ 0 ∨ d.pages ≠ 0)

theorem window_iff : 1 ≤ min (mapEnd map) fs.capacity ↔
    0 < fs.capacity ∧ ∃ d ∈ map, d.available = true ∧ (d.start ≠ 0 ∨ d.pages ≠ 0) := by
  rw [Nat.le_min, and_comm]
  apply and_congr_right'
  apply lt_mapEnd_iff.trans
  simp only [Descriptor.last_pos_iff]

/-- A map that cannot be ingested fails the check of the counter or else that of the window. -/
theorem seed_cases (fs : Frames) (words : ∀ d ∈ map, d.start < Word.bound) :
    (fs.Seedable map ∧ (fs.ingest map).run.value = .ok (fs.seeded map)) ∨
    (¬ fs.Seedable map ∧ (fs.ingest map).run.value =
      .error (if availableFrames map < Word.bound then .invertedWindow else .overflow)) := by
  by_cases counted : availableFrames map < Word.bound
  · have countable := (countable_iff words).mpr counted
    rw [ingest_of_countable countable, if_pos counted]
    by_cases window : 1 ≤ min (mapEnd map) fs.capacity
    · rw [if_pos window]
      obtain ⟨roomy, available⟩ := window_iff.mp window
      exact .inl ⟨⟨counted, roomy, available⟩, rfl⟩
    · rw [if_neg window]
      exact .inr ⟨fun seedable => window (window_iff.mpr ⟨seedable.roomy, seedable.available⟩), rfl⟩
  · rw [ingest_of_not_countable (mt (countable_iff words).mp counted), if_neg counted]
    exact .inr ⟨fun seedable => counted seedable.counted, rfl⟩

/-- A refused request was one for frames that are not there. -/
theorem allocate_eq_error {n : Nat} {e : AllocError} (positive : 0 < n) :
    (fs.allocate n).value = .error e ↔ e = .outOfMemory n ∧ ∀ s, ¬ fs.bitmap.Fits fs.window n s := by
  rw [value_allocate, if_neg (Nat.ne_of_gt positive)]
  cases found : fs.bitmap.firstFit fs.window n with
  | none => simp [eq_comm, (Bitmap.firstFit_eq_none positive).mp found]
  | some s =>
    have fits := ((Bitmap.firstFit_eq_some positive).mp found).1
    constructor
    · rintro ⟨⟩
    · exact fun nowhere => absurd fits (nowhere.2 s)

end Frames

namespace Boot
variable {b b' : Boot} {map : List Descriptor} {root : Nat}

/-- The map offers a run of frames for the heap. -/
def HeapFits (b : Boot) (map : List Descriptor) : Prop :=
  ∃ s, ∀ f, s ≤ f → f < s + heapFrames → b.frames.value.Offered map f

theorem exists_answer
    (seeded : (b.frames.value.ingest map).run.value = .ok (b.frames.value.seeded map)) :
    ∃ answer b', (b.initMemory map root).run.value = .ok (answer, b') ∧
      (b.HeapFits map → ∃ f, answer = .ok ⟨f, heapFrames⟩) ∧
      (¬ b.HeapFits map → answer = .error (.alloc (.outOfMemory heapFrames))) := by
  have positive : 0 < heapFrames := by decide
  rw [value_initMemory, seeded]
  cases granted : ((b.frames.value.seeded map).allocate heapFrames).value with
  | ok r =>
    have fits := (Frames.allocate_eq_ok.mp granted).2.1
    refine ⟨.ok ⟨r.1, heapFrames⟩, b.left root r.2, ?_, fun _ => ⟨r.1, rfl⟩, fun none => ?_⟩
    · rw [Except.map, granted]
    · exact absurd ⟨r.1, (Frames.fits_seeded_iff positive).mp fits⟩ none
  | error e =>
    obtain ⟨rfl, nowhere⟩ := (Frames.allocate_eq_error positive).mp granted
    refine ⟨_, b.left root (b.frames.value.seeded map), ?_, fun fits => ?_, fun _ => rfl⟩
    · rw [Except.map, granted]
    · obtain ⟨s, offered⟩ := fits
      exact absurd ((Frames.fits_seeded_iff positive).mpr offered) (nowhere s)

/-- **Outcomes of bring-up.** It comes to an answer if and only if there is available memory past
frame 0, no more than a word can count, and a bitmap to note it in; the answer is a region for the
heap if the map offers one, and a report that memory is short if it does not. Otherwise it panics,
over the counter if that overflows and over the empty window if not. -/
theorem bring_up_outcomes (b : Boot) (root : Nat) (words : ∀ d ∈ map, d.start < Word.bound) :
    (b.frames.value.Seedable map → ∃ answer b',
      (b.initMemory map root).run.value = .ok (answer, b') ∧
      (b.HeapFits map → ∃ f, answer = .ok ⟨f, heapFrames⟩) ∧
      (¬ b.HeapFits map → answer = .error (.alloc (.outOfMemory heapFrames)))) ∧
    (¬ b.frames.value.Seedable map → (b.initMemory map root).run.value =
      .error (if availableFrames map < Word.bound then .invertedWindow else .overflow)) := by
  cases b.frames.value.seed_cases words with
  | inl good => exact ⟨fun _ => exists_answer good.2, fun bad => absurd good.1 bad⟩
  | inr bad =>
    refine ⟨fun good => absurd good bad.1, fun _ => ?_⟩
    rw [value_initMemory, bad.2]
    rfl

/-- A map that is too small for the heap is reported. -/
theorem bring_up_reports_small_map :
    let map : List Descriptor := [⟨.conventional, 0x1000, 1000⟩]
    (∀ d ∈ map, d.start < Word.bound) ∧ (new 16 0).frames.value.Seedable map ∧
      ∃ b', ((new 16 0).initMemory map 0).run.value =
        .ok (.error (.alloc (.outOfMemory heapFrames)), b') := by
  intro map
  have words : ∀ d ∈ map, d.start < Word.bound := by decide
  have seedable : (new 16 0).frames.value.Seedable map := ⟨by decide, by decide, by decide⟩
  obtain ⟨answer, b', up, -, short⟩ := (bring_up_outcomes (new 16 0) 0 words).1 seedable
  have unfit : ¬ (new 16 0).HeapFits map := by
    rintro ⟨s, offered⟩
    have known := (offered (s + 1024) (by omega) (by simp only [heapFrames]; omega)).known
    have few : (new 16 0).frames.value.capacity = 1024 := by decide
    omega
  exact ⟨words, seedable, b', short unfit ▸ up⟩

/-- The empty map stops the kernel. -/
theorem bring_up_stops_on_empty_map :
    ((new 16 0).initMemory [] 0).run.value = .error .invertedWindow := by
  rw [value_initMemory, Frames.ingest_of_countable ⟨by decide, by decide⟩]
  rfl

end Boot

end Nucleus
