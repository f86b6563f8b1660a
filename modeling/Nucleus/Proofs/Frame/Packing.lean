import Mathlib.Data.Finset.Card
import Mathlib.Order.Interval.Finset.Nat
import Nucleus.Proofs.Frame.Ingestion
import Nucleus.Proofs.Frame.Scan
import Nucleus.Proofs.Frame.Serving

/-!
# Packing

A bitmap stands for a set of frames. Whatever is asked of an allocator, one by one or bit by bit,
is answered as the set would answer it.

* `FrameSet`: a set of frames below the capacity, and the window; what each request does to it.
* `Frames.ask`, `Frames.operate`: the same requests put to an allocator, a range at a time and with
  each bit, sum and index that this takes.
* `operate_eq`: nothing goes wrong bit by bit that does not go wrong a range at a time.
* `Packs`: an allocator stands for a set. `packs_ask` keeps that for one request.
* `bitmap_packs_set`: so it is kept for any number of them, with the answers.
-/

namespace Nucleus
open Platform

/-- What can be asked of an allocator. -/
inductive Frames.Request where
  | release (start n : Nat)
  | mark (start n : Nat)
  | restrict (first stop : Nat)
  | allocate (n : Nat)
  | isTaken (f : Nat)
  | usage

/-- A window is not to be set the wrong way round. -/
def Frames.Request.Ordered (capacity : Nat) : Request → Prop
  | .restrict first stop => first ≤ min stop capacity
  | _ => True

inductive Frames.Answer where
  | done
  | served (r : Except AllocError Nat)
  | taken (b : Bool)
  | counted (u : Usage) (free : Nat)
deriving DecidableEq

open Frames (Request Answer)

/-! ## The set -/

/-- The frames that are taken among those below `capacity`, and the window that requests are served
from. -/
structure FrameSet where
  capacity : Nat
  taken : Finset Nat
  window : Span

namespace FrameSet

/-- All of `64 * lines` frames. -/
def full (lines : Nat) : FrameSet :=
  ⟨64 * lines, Finset.range (64 * lines), ⟨0, 64 * lines⟩⟩

/-- The frames that there are among the `n` from `start` on. -/
def named (S : FrameSet) (start n : Nat) : Finset Nat :=
  {f ∈ Finset.Ico start (start + n) | f < S.capacity}

def mark (S : FrameSet) (start n : Nat) : FrameSet :=
  { S with taken := S.taken ∪ S.named start n }

def release (S : FrameSet) (start n : Nat) : FrameSet :=
  { S with taken := S.taken \ S.named start n }

def restrict (S : FrameSet) (first stop : Nat) : FrameSet :=
  { S with window := ⟨first, min stop S.capacity⟩ }

/-- The `n` frames from `s` on lie in the window, and none of them is taken. -/
def Fits (S : FrameSet) (n s : Nat) : Prop :=
  S.window.first ≤ s ∧ s + n ≤ S.window.stop ∧ Disjoint (Finset.Ico s (s + n)) S.taken

instance (S : FrameSet) (n : Nat) : DecidablePred (S.Fits n) := fun _ => inferInstanceAs
  (Decidable (_ ∧ _ ∧ _))

/-- The lowest run of `n` free frames in the window. -/
def lowest? (S : FrameSet) (n : Nat) : Option Nat :=
  (List.range (S.window.stop + 1)).find? fun s => decide (S.Fits n s)

def usage (S : FrameSet) : Usage :=
  ⟨Finset.card {f ∈ S.taken | S.window.contains f}, S.window.length⟩

def ask (S : FrameSet) : Request → Answer × FrameSet
  | .release start n => (.done, S.release start n)
  | .mark start n => (.done, S.mark start n)
  | .restrict first stop => (.done, S.restrict first stop)
  | .allocate n =>
    if n = 0 then (.served (.error .emptyRequest), S)
    else
      match S.lowest? n with
      | none => (.served (.error (.outOfMemory n)), S)
      | some s => (.served (.ok s), S.mark s n)
  | .isTaken f => (.taken (decide (f ∈ S.taken ∨ S.capacity ≤ f)), S)
  | .usage => (.counted S.usage (S.usage.total - S.usage.taken), S)

/-- Requests made one after the other. -/
def answers (S : FrameSet) : List Request → List Answer × FrameSet
  | [] => ([], S)
  | q :: qs => ((S.ask q).1 :: ((S.ask q).2.answers qs).1, ((S.ask q).2.answers qs).2)

end FrameSet

/-! ## The allocator -/

namespace Bitmap

/-- Clear the bit of frame `f`. -/
def clearBit? (b : Bitmap) (f : Nat) : Except Misstep Bitmap :=
  match b.lines[f / 64]? with
  | some w => .ok ⟨b.lines.setIfInBounds (f / 64) (w &&& ~~~ (1 <<< (f % 64).toUInt64))⟩
  | none => .error .missingLine

/-- Clear the bits of the `n` frames from `f` on. -/
def clearBits (b : Bitmap) : (n f : Nat) → Except Misstep Bitmap
  | 0, _ => pure b
  | n + 1, f => do (← b.clearBit? f).clearBits n (f + 1)

/-- How many of the bits of the `n` frames from `f` on are set, added to `sum`. -/
def tally (b : Bitmap) : (n f sum : Nat) → Except Misstep Nat
  | 0, _, sum => pure sum
  | n + 1, f, sum => do b.tally n (f + 1) (if ← b.bit? f then sum + 1 else sum)

end Bitmap

/-- What stops a request bit by bit. -/
inductive Fault where
  | panic (p : Panic)
  | misstep (m : Misstep)

namespace Frames

def ask (fs : Frames) : Request → Except Panic (Answer × Frames)
  | .release start n => pure (.done, fs.release start n)
  | .mark start n => pure (.done, fs.mark start n)
  | .restrict first stop => do pure (.done, ← fs.restrict first stop)
  | .allocate n =>
    match (fs.allocate n).value with
    | .ok (s, fs') => pure (.served (.ok s), fs')
    | .error e => pure (.served (.error e), fs)
  | .isTaken f => pure (.taken (fs.isTaken f), fs)
  | .usage => do pure (.counted fs.usage (← fs.usage.free?), fs)

/-- A request bit by bit. The address of a run that is handed out is worked out for the record
only, if that is `traced`. -/
def operate (traced : Bool) (fs : Frames) : Request → Except Fault (Answer × Frames)
  | .release start n => do
    let r := fs.clamp start n
    let b ← (fs.bitmap.clearBits (r.stop - r.first) r.first).mapError .misstep
    pure (.done, { fs with bitmap := b })
  | .mark start n => do
    let r := fs.clamp start n
    let b ← (fs.bitmap.setBits (r.stop - r.first) r.first).mapError .misstep
    pure (.done, { fs with bitmap := b })
  | .restrict first stop => do
    pure (.done, ← (fs.restrict first stop).mapError .panic)
  | .allocate n => do
    let (r, fs') ← (fs.serve n).mapError .misstep
    match r with
    | .ok s => if traced then discard <| (Frame.address? s).mapError .panic
    | .error _ => pure ()
    pure (.served r, fs')
  | .isTaken f =>
    if fs.capacity ≤ f then pure (.taken true, fs)
    else do pure (.taken (← (fs.bitmap.bit? f).mapError .misstep), fs)
  | .usage => do
    let taken ← (fs.bitmap.tally fs.window.length fs.window.first 0).mapError .misstep
    let u : Usage := ⟨taken, fs.window.length⟩
    pure (.counted u (← u.free?.mapError .panic), fs)

/-- Requests made one after the other, as long as none is stopped. -/
def answers {ε : Type} (ask : Frames → Request → Except ε (Answer × Frames)) (fs : Frames) :
    List Request → Except ε (List Answer × Frames)
  | [] => pure ([], fs)
  | q :: qs => do
    let (a, fs) ← ask fs q
    let (as, fs) ← fs.answers ask qs
    pure (a :: as, fs)

end Frames

/-! ## Bit by bit -/

namespace Bitmap
variable {b : Bitmap} {f : Nat}

theorem clearBit?_eq (known : f < b.capacity) : ∃ b', b.clearBit? f = .ok b' ∧
    b'.lines.size = b.lines.size ∧ ∀ g, b'.taken g = (b.taken g && !decide (g = f)) := by
  have line : f / 64 < b.lines.size := by
    simp only [capacity] at known
    omega
  refine ⟨⟨b.lines.setIfInBounds (f / 64) (b.lines[f / 64] &&& ~~~ (1 <<< (f % 64).toUInt64))⟩,
    by simp [clearBit?, line], by simp, fun g => ?_⟩
  have small : g % 64 < 64 := Nat.mod_lt _ (by decide)
  have one := bit_one (Nat.mod_lt f (by decide)) small
  rw [taken_setLine line]
  by_cases here : f / 64 = g / 64
  · have place : f % 64 = g % 64 ↔ g = f := by omega
    have both (v w : UInt64) :
        bit (v &&& ~~~ w) (g % 64) = (bit v (g % 64) && !bit w (g % 64)) := by
      simp [bit_eq _ small, small]
    rw [if_pos here, both, one, ← taken_of_line line here, decide_eq_decide.mpr place]
  · have other : g ≠ f := by
      rintro rfl
      exact here rfl
    rw [if_neg here, decide_eq_false other, Bool.not_false, Bool.and_true]

/-- Clearing bits one by one gives the frames of a range back. -/
theorem clearBits_eq (n : Nat) : ∀ (b : Bitmap) (f : Nat), f + n ≤ b.capacity →
    b.clearBits n f = .ok (b.release f (f + n)) := by
  induction n with
  | zero =>
    intro b f _
    have none : b.release f f = b := by
      apply ext_taken
      · simp [release]
      · intro g
        have nowhere : ¬(f ≤ g ∧ g < f) := by omega
        rw [taken_release, decide_eq_false nowhere, Bool.not_false, Bool.or_true, Bool.and_true]
    simp [clearBits, none, pure, Except.pure]
  | succ n ih =>
    intro b f within
    obtain ⟨b', cleared, size, taken⟩ := clearBit?_eq (b := b) (f := f) (by omega)
    have capacity : b'.capacity = b.capacity := by simp only [Bitmap.capacity, size]
    have rest := ih b' (f + 1) (by omega)
    -- `b'` is without `f` already, the loop goes on behind it
    have same : b'.release (f + 1) (f + 1 + n) = b.release f (f + (n + 1)) := by
      apply ext_taken
      · simp [release, size]
      · intro g
        rw [taken_release, taken_release, taken, capacity, Bool.and_assoc]
        congr 1
        by_cases past : b.capacity ≤ g
        · have other : g ≠ f := by omega
          simp [past, other]
        · simp only [past, decide_false, Bool.false_or, ← decide_not, ← Bool.decide_and]
          congr 1
          apply propext
          omega
    simp [clearBits, cleared, rest, same, bind, Except.bind]

theorem tally_eq (n : Nat) : ∀ f sum, f + n ≤ b.capacity →
    b.tally n f sum = .ok (b.countFrom n f sum) := by
  induction n with
  | zero => exact fun _ _ _ => rfl
  | succ n ih =>
    intro f sum within
    simp only [tally, bit?_eq (show f < b.capacity by omega), bind, Except.bind]
    exact ih (f + 1) _ (by omega)

/-- The loop counts the taken frames of the interval. -/
theorem countFrom_eq (b : Bitmap) (n : Nat) : ∀ f sum, b.countFrom n f sum =
    sum + Finset.card {g ∈ Finset.Ico f (f + n) | b.taken g = true} := by
  induction n with
  | zero =>
    intro f sum
    simp [countFrom]
  | succ n ih =>
    intro f sum
    have split : Finset.Ico f (f + (n + 1)) = insert f (Finset.Ico (f + 1) (f + 1 + n)) := by
      ext g
      simp only [Finset.mem_Ico, Finset.mem_insert]
      omega
    rw [countFrom, ih, split, Finset.filter_insert]
    cases taken : b.taken f with
    | true =>
      rw [if_pos rfl, if_pos rfl, Finset.card_insert_of_notMem (by simp)]
      omega
    | false => simp

end Bitmap

namespace Frames
variable {fs fs' : Frames} {S : FrameSet} {f n s : Nat}

theorem clamp_within (word : fs.capacity ≤ Word.max) (start n : Nat) :
    (fs.clamp start n).first ≤ (fs.clamp start n).stop ∧
      (fs.clamp start n).stop ≤ fs.bitmap.capacity := by
  have same : fs.bitmap.capacity = fs.capacity := rfl
  simp only [clamp, Word.satAdd]
  omega

/-- The first frame of a run that is handed out has an address. -/
theorem address?_of_allocate (inside : fs.window.stop ≤ fs.capacity)
    (bytes : fs.capacity * frameBytes ≤ Word.bound)
    (granted : (fs.allocate n).value = .ok (s, fs')) :
    Frame.address? s = .ok (s * frameBytes) := by
  obtain ⟨positive, fits, -, -⟩ := allocate_eq_ok.mp granted
  have stop := fits.stop
  have below : s < fs.capacity := by omega
  have small : s * frameBytes < Word.bound :=
    Nat.lt_of_lt_of_le (Nat.mul_lt_mul_of_pos_right below (by decide)) bytes
  simp [Frame.address?, Word.mul?, small]

/-- Bit by bit, a request comes to the same as for a range at a time. -/
theorem operate_eq {traced : Bool} (ordered : fs.window.first ≤ fs.window.stop)
    (inside : fs.window.stop ≤ fs.capacity) (word : fs.capacity ≤ Word.max)
    (addressed : traced = true → fs.capacity * frameBytes ≤ Word.bound) (q : Request) :
    fs.operate traced q = (fs.ask q).mapError .panic := by
  cases q with
  | release start n =>
    obtain ⟨low, high⟩ := clamp_within word start n
    have cleared := fs.bitmap.clearBits_eq ((fs.clamp start n).stop - (fs.clamp start n).first)
      (fs.clamp start n).first (by omega)
    rw [Nat.add_sub_cancel' low] at cleared
    simp only [operate, cleared]
    rfl
  | mark start n =>
    obtain ⟨low, high⟩ := clamp_within word start n
    have set := Bitmap.setBits_eq ((fs.clamp start n).stop - (fs.clamp start n).first) fs.bitmap
      (fs.clamp start n).first (by omega)
    rw [Nat.add_sub_cancel' low] at set
    simp only [operate, set]
    rfl
  | restrict first stop =>
    simp only [operate, ask]
    cases fs.restrict first stop <;> rfl
  | allocate n =>
    simp only [operate, ask, serve_eq ordered inside word]
    cases granted : (fs.allocate n).value with
    | error e => rfl
    | ok r =>
      obtain ⟨s, fs'⟩ := r
      cases traced with
      | false => rfl
      | true =>
        have address := address?_of_allocate inside (addressed rfl) granted
        simp only [Except.mapError, bind, Except.bind, if_true, address]
        rfl
  | isTaken f =>
    simp only [operate, ask]
    split
    · next past => rw [isTaken_of_capacity_le past]; rfl
    · next known =>
      rw [Bitmap.bit?_eq (Nat.lt_of_not_le known)]
      rfl
  | usage =>
    have tallied := Bitmap.tally_eq (b := fs.bitmap) fs.window.length fs.window.first 0
      (by simp only [Span.length]; change _ ≤ fs.capacity; omega)
    simp only [operate, ask, tallied]
    change (do pure (Answer.counted fs.usage (← fs.usage.free?.mapError Fault.panic), fs)) = _
    cases fs.usage.free? <;> rfl

/-! ## The allocator stands for a set -/

/-- `fs` stands for `S`: a frame counts as taken if it is in the set, or if there is no such
frame. -/
structure Packs (fs : Frames) (S : FrameSet) : Prop where
  capacity : fs.capacity = S.capacity
  window : fs.window = S.window
  ordered : S.window.first ≤ S.window.stop
  inside : S.window.stop ≤ S.capacity
  known : ∀ f ∈ S.taken, f < S.capacity
  taken_iff : ∀ f, fs.isTaken f = true ↔ f ∈ S.taken ∨ S.capacity ≤ f

theorem packs_full (lines : Nat) : Packs (full lines) (.full lines) where
  capacity := capacity_full lines
  window := congrArg (Span.mk 0) (capacity_full lines)
  ordered := Nat.zero_le _
  inside := Nat.le_refl _
  known f here := Finset.mem_range.mp here
  taken_iff f := by
    have taken : (full lines).isTaken f = true := Bitmap.taken_full lines f
    simp only [taken, FrameSet.full, Finset.mem_range, true_iff]
    exact Nat.lt_or_ge f _

theorem Packs.free_iff (packs : Packs fs S) :
    fs.isTaken f = false ↔ f < S.capacity ∧ f ∉ S.taken := by
  rw [← Bool.not_eq_true, packs.taken_iff, not_or, Nat.not_le, and_comm]

/-- As far as there are frames, a range does not wrap around. -/
theorem among_iff_named (word : S.capacity ≤ Word.max) (here : f < S.capacity) (start n : Nat) :
    among start n f = true ↔ f ∈ S.named start n := by
  rw [among_iff (Nat.lt_of_lt_of_le here word), FrameSet.named, Finset.mem_filter, Finset.mem_Ico]
  exact (and_iff_left here).symm

theorem packs_mark (packs : Packs fs S) (word : S.capacity ≤ Word.max) (start n : Nat) :
    Packs (fs.mark start n) (S.mark start n) where
  capacity := (capacity_mark ..).trans packs.capacity
  window := packs.window
  ordered := packs.ordered
  inside := packs.inside
  known f marked := by
    rcases Finset.mem_union.mp marked with before | named
    · exact packs.known f before
    · exact (Finset.mem_filter.mp named).2
  taken_iff f := by
    rw [← Bool.not_eq_false, free_mark, packs.free_iff, FrameSet.mark, Finset.mem_union]
    -- no range names a frame past the capacity, and there all count as taken
    by_cases here : f < S.capacity
    · rw [← Bool.not_eq_true (among start n f), among_iff_named word here]
      have known : ¬S.capacity ≤ f := Nat.not_le_of_lt here
      tauto
    · simp [here, Nat.le_of_not_lt here]

theorem packs_release (packs : Packs fs S) (word : S.capacity ≤ Word.max) (start n : Nat) :
    Packs (fs.release start n) (S.release start n) where
  capacity := (capacity_release ..).trans packs.capacity
  window := packs.window
  ordered := packs.ordered
  inside := packs.inside
  known f left := packs.known f (Finset.mem_sdiff.mp left).1
  taken_iff f := by
    rw [← Bool.not_eq_false, free_release, packs.free_iff, packs.capacity, FrameSet.release,
      Finset.mem_sdiff]
    by_cases here : f < S.capacity
    · rw [among_iff_named word here]
      have known : ¬S.capacity ≤ f := Nat.not_le_of_lt here
      tauto
    · simp [here, Nat.le_of_not_lt here]

theorem packs_restrict (packs : Packs fs S) {first stop : Nat}
    (ordered : first ≤ min stop S.capacity) :
    fs.restrict first stop = .ok { fs with window := ⟨first, min stop S.capacity⟩ } ∧
      Packs { fs with window := ⟨first, min stop S.capacity⟩ } (S.restrict first stop) := by
  refine ⟨by simp [restrict, packs.capacity, ordered], ?_⟩
  exact ⟨packs.capacity, rfl, ordered, Nat.min_le_right _ _, packs.known, packs.taken_iff⟩

/-- What is counted is the set inside the window. -/
theorem usage_eq (packs : Packs fs S) : fs.usage = S.usage := by
  have counted : fs.bitmap.count fs.window = Finset.card {f ∈ S.taken | S.window.contains f} := by
    rw [Bitmap.count, Bitmap.countFrom_eq, Nat.zero_add, packs.window]
    congr 1
    ext f
    have inside := packs.inside
    have ordered := packs.ordered
    have taken : fs.bitmap.taken f = true ↔ f ∈ S.taken ∨ S.capacity ≤ f := packs.taken_iff f
    simp only [Finset.mem_filter, Finset.mem_Ico, taken, Span.contains_iff, Span.length]
    constructor
    · rintro ⟨window, here | past⟩
      · exact ⟨here, by omega⟩
      · omega
    · rintro ⟨here, window⟩
      exact ⟨by omega, .inl here⟩
  rw [usage, counted, packs.window, FrameSet.usage]

theorem fits_iff (packs : Packs fs S) : fs.bitmap.Fits fs.window n s ↔ S.Fits n s := by
  have free (f : Nat) : fs.bitmap.taken f = false ↔ f < S.capacity ∧ f ∉ S.taken :=
    packs.free_iff
  constructor
  · rintro ⟨low, high, run⟩
    rw [packs.window] at low high
    refine ⟨low, high, Finset.disjoint_left.mpr fun f here => ?_⟩
    obtain ⟨above, below⟩ := Finset.mem_Ico.mp here
    exact ((free f).mp (run f above below)).2
  · rintro ⟨low, high, apart⟩
    refine ⟨packs.window ▸ low, packs.window ▸ high, fun f above below => (free f).mpr ⟨?_, ?_⟩⟩
    · have inside := packs.inside
      omega
    · exact Finset.disjoint_left.mp apart (Finset.mem_Ico.mpr ⟨above, below⟩)

theorem firstFit_eq_lowest (packs : Packs fs S) (positive : 0 < n) :
    fs.bitmap.firstFit fs.window n = S.lowest? n := by
  cases found : S.lowest? n with
  | none =>
    refine (Bitmap.firstFit_eq_none positive).mpr fun s fits => ?_
    have nowhere := List.find?_range_eq_none.mp found s
    have stop := fits.stop
    rw [packs.window] at stop
    simpa [(fits_iff packs).mp fits] using nowhere (by omega)
  | some s =>
    obtain ⟨fits, -, least⟩ := List.find?_range_eq_some.mp found
    refine (Bitmap.firstFit_eq_some positive).mpr ⟨(fits_iff packs).mpr (by simpa using fits), ?_⟩
    intro s' fits'
    by_contra before
    simpa [(fits_iff packs).mp fits'] using least s' (Nat.lt_of_not_le before)

/-- A request leaves the allocator standing for what it leaves of the set, and gets its answer. -/
theorem packs_ask (packs : Packs fs S) (word : S.capacity ≤ Word.max) {q : Request}
    (ordered : q.Ordered S.capacity) :
    ∃ fs', fs.ask q = .ok ((S.ask q).1, fs') ∧ Packs fs' (S.ask q).2 := by
  cases q with
  | release start n => exact ⟨_, rfl, packs_release packs word start n⟩
  | mark start n => exact ⟨_, rfl, packs_mark packs word start n⟩
  | restrict first stop =>
    obtain ⟨accepted, packs'⟩ := packs_restrict packs ordered
    exact ⟨_, by simp only [ask, accepted]; rfl, packs'⟩
  | allocate n =>
    simp only [ask, FrameSet.ask, value_allocate]
    by_cases empty : n = 0
    · simp only [empty, if_true]
      exact ⟨fs, rfl, packs⟩
    · simp only [empty, if_false, firstFit_eq_lowest packs (Nat.pos_of_ne_zero empty)]
      cases S.lowest? n with
      | none => exact ⟨fs, rfl, packs⟩
      | some s => exact ⟨_, rfl, packs_mark packs word s n⟩
  | isTaken f =>
    have same : fs.isTaken f = decide (f ∈ S.taken ∨ S.capacity ≤ f) := by
      rw [Bool.eq_iff_iff, packs.taken_iff, decide_eq_true_iff]
    exact ⟨fs, by simp only [ask, same]; rfl, packs⟩
  | usage =>
    -- the allocator's checked difference is that of the set, so it cannot fall below 0 there either
    obtain ⟨free, counted⟩ := free?_usage fs
    obtain ⟨-, rfl⟩ := Word.sub?_eq_ok.mp counted
    rw [usage_eq packs] at counted
    exact ⟨fs, by simp only [ask, usage_eq packs, counted]; rfl, packs⟩

theorem taken_le_total (packs : Packs fs S) : S.usage.taken ≤ S.usage.total := by
  obtain ⟨free, counted⟩ := free?_usage fs
  rw [usage_eq packs] at counted
  exact (Word.sub?_eq_ok.mp counted).1

theorem capacity_ask (S : FrameSet) (q : Request) : (S.ask q).2.capacity = S.capacity := by
  cases q with
  | allocate n =>
    simp only [FrameSet.ask]
    split
    · rfl
    · split <;> rfl
  | _ => rfl

/-! ## Any number of requests -/

/-- Whoever asks, a range at a time or bit by bit, is told what the set says. -/
theorem packs_answers {traced : Bool} {capacity : Nat} (word : capacity ≤ Word.max)
    (addressed : traced = true → capacity * frameBytes ≤ Word.bound) (qs : List Request)
    (ordered : ∀ q ∈ qs, q.Ordered capacity) : ∀ fs S, Packs fs S → S.capacity = capacity →
      ∃ fs', answers ask fs qs = .ok ((S.answers qs).1, fs') ∧
        answers (operate traced) fs qs = .ok ((S.answers qs).1, fs') ∧
        Packs fs' (S.answers qs).2 := by
  induction qs with
  | nil => exact fun fs S packs _ => ⟨fs, rfl, rfl, packs⟩
  | cons q qs ih =>
    rintro fs S packs rfl
    obtain ⟨first, later⟩ := List.forall_mem_cons.mp ordered
    obtain ⟨fs₁, answer, packs₁⟩ := packs_ask packs word first
    obtain ⟨fs', rest, rest', packs'⟩ := ih later fs₁ _ packs₁ (capacity_ask S q)
    have answer' : fs.operate traced q = .ok ((S.ask q).1, fs₁) := by
      rw [operate_eq (packs.window ▸ packs.ordered) (packs.window ▸ packs.capacity ▸ packs.inside)
        (packs.capacity ▸ word) (packs.capacity ▸ addressed), answer]
      rfl
    refine ⟨fs', ?_, ?_, packs'⟩
    · simp only [answers, answer, rest, bind, Except.bind]
      rfl
    · simp only [answers, answer', rest', bind, Except.bind]
      rfl

/-- **A packed bitmap is a set of frames.** However many lines it has, and whatever starts and
counts it is asked about, each request is answered as the set answers it and leaves what the set
becomes: giving back and taking change exactly the frames of the range that there are, a range
never wraps around, frames that there are not count as taken, and what is counted is the set inside
the window, which is never more than the window. Bit by bit nothing goes wrong either: each bit has
its line, no sum leaves a machine word, and no more frames are taken than there are. -/
theorem bitmap_packs_set (lines : Nat) (word : 64 * lines ≤ Word.max) (traced : Bool)
    (addressed : traced = true → 64 * lines * frameBytes ≤ Word.bound) (qs : List Request)
    (ordered : ∀ q ∈ qs, q.Ordered (64 * lines)) :
    ∃ fs, answers ask (full lines) qs = .ok (((FrameSet.full lines).answers qs).1, fs) ∧
      answers (operate traced) (full lines) qs = .ok (((FrameSet.full lines).answers qs).1, fs) ∧
      Packs fs ((FrameSet.full lines).answers qs).2 ∧
      fs.usage = ((FrameSet.full lines).answers qs).2.usage ∧
      fs.usage.taken ≤ fs.usage.total := by
  obtain ⟨fs, told, told', packs⟩ :=
    packs_answers word addressed qs ordered _ _ (packs_full lines) rfl
  have counted := usage_eq packs
  exact ⟨fs, told, told', packs, counted, counted ▸ taken_le_total packs⟩

/-- Ranges across a line and past the last one, a run that is handed out and one that is not. -/
theorem bitmap_packs_set_across_lines :
    let qs : List Request := [.release 60 8, .release 120 Word.max, .mark 126 Word.max,
      .restrict 1 10000, .allocate 7, .allocate 7, .isTaken 66, .isTaken 67, .isTaken 128, .usage]
    let told : List Answer := [.done, .done, .done, .done, .served (.ok 60),
      .served (.error (.outOfMemory 7)), .taken true, .taken false, .taken true,
      .counted ⟨120, 127⟩ 7]
    64 * 2 ≤ Word.max ∧ 64 * 2 * frameBytes ≤ Word.bound ∧
      (∀ q ∈ qs, q.Ordered (64 * 2)) ∧ ((FrameSet.full 2).answers qs).1 = told ∧
      ∃ fs, answers (operate true) (full 2) qs = .ok (told, fs) ∧
        Packs fs ((FrameSet.full 2).answers qs).2 := by
  intro qs told
  have ordered : ∀ q ∈ qs, q.Ordered (64 * 2) := by
    simp [qs, Request.Ordered]
  obtain ⟨fs, asked, operated, packs, -⟩ :=
    bitmap_packs_set 2 (by decide) true (fun _ => by decide) qs ordered
  have run : (answers ask (full 2) qs).map Prod.fst = .ok told := by decide +kernel
  rw [asked] at run
  have same : ((FrameSet.full 2).answers qs).1 = told := Except.ok.inj run
  exact ⟨by decide, by decide, ordered, same, fs, same ▸ operated, packs⟩

end Frames

end Nucleus
