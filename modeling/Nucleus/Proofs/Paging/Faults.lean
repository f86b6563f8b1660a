import Nucleus.Proofs.Paging.Mapping
import Nucleus.Proofs.Paging.Translation

/-!
# Resolved faults

Mapping one page goes down one path. It backs the page at the end of the path, or it fails, and the
tables that it made on the way then translate nothing.

* `Backs`: what is left when the page of an address has been backed.
* `entered_of_descend`, `onePage_fill`: mapping one page does that below every table.
* `confined_map`: so in a whole tree, of all translations only those of one page may change.
-/

namespace Nucleus
open Platform

/-- The errors that refuse an access before any table is looked at. -/
def PagingError.refuses : PagingError → Bool
  | .protectionViolation _ | .outOfRange _ => true
  | _ => false

namespace Store
variable {s s₁ s₂ s' : Store} {level table f : Nat} {i : Fin 512} {a b : Linear}
  {r : Except PagingError Nat × Store}

/-! ## Beside a path -/

theorem Grown.walk_beside (grown : Grown level f s s') (well : s.WellFormed (level + 1) table)
    (linked : s.memory.link? (level + 1) table i = some f) (other : b.part (level + 1) ≠ i) :
    s'.memory.walk b (level + 1) table = s.memory.walk b (level + 1) table := by
  refine Memory.walk_congr (Entry.alike_of_eq (entry_above well linked grown _)) fun p g leads j =>
    Entry.alike_of_eq (grown.entry_beside (fun q leads' => ?_) (well.taken _ g leads) j)
  exact other (well.eq_of_follow leads ((Memory.follow_link (i := i) linked).trans leads'))

theorem Made.walk_beside (made : Made table f i s s') (well : s.WellFormed (level + 1) table)
    (other : b.part (level + 1) ≠ i) :
    s'.memory.walk b (level + 1) table = s.memory.walk b (level + 1) table := by
  have same : ∀ p g j, s.memory.follow (level + 1) table p = some g → ¬ (table = g ∧ i = j) →
      (s.memory.entry g j).Alike (s'.memory.entry g j) := by
    intro p g j leads here
    refine Entry.alike_of_eq ?_
    rw [made.entry, if_neg here, if_neg (made.ne_of_follow well leads)]
  refine Memory.walk_congr (same [] _ _ Memory.follow_nil fun h => other h.2.symm)
    fun p g leads j => same _ g j leads ?_
  rintro ⟨rfl, -⟩
  exact well.not_follow_root leads

theorem walk_open (s : Store) (table : Nat) (i : Fin 512) (b : Linear) (level g : Nat) :
    (s.openEntry table i).memory.walk b level g = s.memory.walk b level g := by
  have alike : ∀ g j, (s.memory.entry g j).Alike ((s.openEntry table i).memory.entry g j) := by
    intro g j
    rw [entry_open]
    split <;> exact ⟨rfl, rfl, rfl⟩
  exact Memory.walk_congr (alike _ _) fun _ g _ j => alike g j

theorem follow_open (s : Store) (table : Nat) (i : Fin 512) (level g : Nat) (p : List (Fin 512)) :
    (s.openEntry table i).memory.follow level g p = s.memory.follow level g p :=
  Memory.follow_congr (fun _ g _ _ l j => s.link?_open table i l g j) p

/-! ## Through one entry -/

/-- Going through the entry for `a` of a table came to frame `f`. -/
structure Entered (a : Linear) (level table f : Nat) (s s₁ : Store) : Prop where
  linked : s₁.memory.link? (level + 1) table (a.part (level + 1)) = some f
  beside : ∀ b : Linear, b.part (level + 1) ≠ a.part (level + 1) →
    s₁.memory.walk b (level + 1) table = s.memory.walk b (level + 1) table
  /-- A table that has just been made translates nothing. -/
  above : level ≠ 0 → ∀ b : Linear,
    s₁.memory.walk b (level + 1) table = s.memory.walk b (level + 1) table
  /-- The entry was there, or it was absent. -/
  before : (∀ p, s₁.memory.follow (level + 1) table p = s.memory.follow (level + 1) table p) ∨
    (s.memory.entry table (a.part (level + 1))).present = false

theorem entered_open (linked : s.memory.link? (level + 1) table (a.part (level + 1)) = some f) :
    Entered a level table f s (s.openEntry table (a.part (level + 1))) where
  linked := (s.link?_open _ _ _ _ _).trans linked
  beside b _ := s.walk_open _ _ b _ _
  above _ b := s.walk_open _ _ b _ _
  before := .inl fun p => s.follow_open _ _ _ _ p

theorem Made.entered (made : Made table f (a.part (level + 1)) s s₁)
    (well : s.WellFormed (level + 1) table)
    (absent : (s.memory.entry table (a.part (level + 1))).present = false) :
    Entered a level table f s s₁ := by
  refine ⟨made.link, fun b => made.walk_beside well, fun inner b => ?above, .inr absent⟩
  case above =>
    by_cases same : b.part (level + 1) = a.part (level + 1)
    · obtain ⟨level, rfl⟩ := Nat.exists_eq_succ_of_ne_zero inner
      have linked : s₁.memory.link? (level + 2) table (b.part (level + 2)) = some f := by
        rw [same]
        exact made.link
      have bare : (s₁.memory.entry f (b.part (level + 1))).present = false := by
        rw [made.clear well f _ rfl]
        rfl
      rw [Memory.walk_link linked, Memory.walk_absent bare,
        Memory.walk_absent (by rw [same]; exact absent)]
    · exact made.walk_beside well same

theorem entered_of_descend (well : s.WellFormed (level + 1) table) (bounded : s.Bounded)
    (a : Linear) : match (s.descend (level + 1) table a).value with
      | (.ok f, s₁) => Entered a level table f s s₁
      | (.error e, s₁) => s₁ = s ∧ e.refuses = false := by
  apply descend_cases (P := fun r => match r with
    | (.ok f, s₁) => Entered a level table f s s₁
    | (.error e, s₁) => s₁ = s ∧ e.refuses = false)
  case huge => exact ⟨rfl, rfl⟩
  case refused => exact fun err => ⟨rfl, rfl⟩
  case present =>
    intro present small
    exact entered_open (Memory.link?_eq_some.mpr ⟨present, small, rfl⟩)
  case made =>
    intro absent f frames granted
    exact (made_of_allocate well bounded absent granted).entered well absent

/-! ## One page -/

/-- From `s` to `s'` the page at the end of the path of `a` came to be backed. -/
structure Backs (a : Linear) (level table : Nat) (s s' : Store) : Prop where
  /-- Addresses with another path are translated as before. -/
  beside : ∀ b : Linear, b.path level ≠ a.path level →
    s'.memory.walk b level table = s.memory.walk b level table
  /-- The page was there, or nothing was. -/
  backed : ∃ f, s'.memory.follow level table (a.path level) = some f ∧
    (s.memory.follow level table (a.path level) = some f ∨
      ∀ b : Linear, b.path level = a.path level → s.memory.walk b level table = none)

/-- What mapping one page below a table comes to. -/
def OnePage (a : Linear) (level table : Nat) (s : Store) (r : Except PagingError Nat × Store) :
    Prop :=
  match r with
  | (.ok left, s') => left = 0 ∧ Backs a level table s s'
  | (.error e, s') => e.refuses = false ∧
      ∀ b : Linear, s'.memory.walk b level table = s.memory.walk b level table

theorem onePage_last (entered : Entered a 0 table f s s₁) :
    OnePage a 1 table s (.ok 0, s₁) := by
  have there : s₁.memory.follow 1 table (a.path 1) = some f :=
    (Memory.follow_link entered.linked).trans Memory.follow_nil
  refine ⟨rfl, fun b other => ?beside, f, there, ?backed⟩
  case beside =>
    refine entered.beside b fun same => other ?_
    exact Linear.path_succ_eq_iff.mpr ⟨same, rfl⟩
  case backed =>
    rcases entered.before with kept | absent
    · exact .inl ((kept _).symm.trans there)
    · refine .inr fun b same => ?_
      have slot := (Linear.path_succ_eq_iff.mp same).1
      exact Memory.walk_absent (by rw [slot]; exact absent)

/-- What mapping one page comes to below an entry, it comes to below the table. -/
theorem onePage_below (well : s.WellFormed (level + 2) table)
    (linked : s.memory.link? (level + 2) table (a.part (level + 2)) = some f)
    (grown : Grown (level + 1) f s r.2) (page : OnePage a (level + 1) f s r) :
    OnePage a (level + 2) table s r := by
  have linked' : r.2.memory.link? (level + 2) table (a.part (level + 2)) = some f :=
    (Memory.link?_congr (entry_above well linked grown _)).trans linked
  have inside : ∀ b : Linear, b.part (level + 2) = a.part (level + 2) →
      s.memory.walk b (level + 2) table = s.memory.walk b (level + 1) f ∧
        r.2.memory.walk b (level + 2) table = r.2.memory.walk b (level + 1) f := by
    intro b same
    rw [← same] at linked linked'
    exact ⟨Memory.walk_link linked, Memory.walk_link linked'⟩
  obtain ⟨e | left, s'⟩ := r
  case error =>
    refine ⟨page.1, fun b => ?_⟩
    by_cases same : b.part (level + 2) = a.part (level + 2)
    · rw [(inside b same).1, (inside b same).2]
      exact page.2 b
    · exact grown.walk_beside well linked same
  case ok =>
    obtain ⟨done, beside, f', there, before⟩ := page
    refine ⟨done, fun b other => ?_, f', (Memory.follow_link linked').trans there, ?_⟩
    · by_cases same : b.part (level + 2) = a.part (level + 2)
      · rw [(inside b same).1, (inside b same).2]
        exact beside b fun rest => other (Linear.path_succ_eq_iff.mpr ⟨same, rest⟩)
      · exact grown.walk_beside well linked same
    · refine before.imp (Memory.follow_link linked).trans fun none b same => ?_
      obtain ⟨slot, rest⟩ := Linear.path_succ_eq_iff.mp same
      rw [(inside b slot).1]
      exact none b rest

/-- Going through the entry first makes no difference to what is translated below. -/
theorem Entered.onePage (entered : Entered a (level + 1) table f s s₁)
    (page : OnePage a (level + 2) table s₁ r) : OnePage a (level + 2) table s r := by
  have above := entered.above (Nat.succ_ne_zero level)
  obtain ⟨e | left, s'⟩ := r
  case error => exact ⟨page.1, fun b => (page.2 b).trans (above b)⟩
  case ok =>
    obtain ⟨done, beside, f', there, before⟩ := page
    refine ⟨done, fun b other => (beside b other).trans (above b), f', there, ?_⟩
    rcases entered.before with kept | absent
    · refine before.imp (kept _).symm.trans fun none b same => ?_
      rw [← above b]
      exact none b same
    · refine .inr fun b same => ?_
      have slot := (Linear.path_succ_eq_iff.mp same).1
      exact Memory.walk_absent (by rw [slot]; exact absent)

theorem fillSlots_done (below : Fill) (level table slots : Nat) (s : Store) (a : Linear) :
    (fillSlots below level table slots s a 0).value = (.ok 0, s) := by
  cases slots <;> rfl

/-- A run of one page goes through one entry. -/
theorem fill_one (s : Store) (level table : Nat) (a : Linear) :
    (fill (level + 1) s table a 1).value = match (s.descend (level + 1) table a).value with
      | (.error e, s₁) => (.error e, s₁)
      | (.ok f, s₁) => match (fill level s₁ f a 1).value with
        | (.error e, s₂) => (.error e, s₂)
        | (.ok left, s₂) => (fillSlots (fill level) (level + 1) table (511 - a.part (level + 1)) s₂
            (a.advance (level + 1)) left).value := by
  have slots : 512 - (a.part (level + 1)).val = 511 - (a.part (level + 1)).val + 1 := by
    have := (a.part (level + 1)).isLt
    omega
  rw [fill, slots, fillSlots, Logged.value_bind]
  rcases (s.descend (level + 1) table a).value with ⟨e | f, s₁⟩
  · rfl
  · simp only [Logged.value_bind]
    rcases (fill level s₁ f a 1).value with ⟨e | left, s₂⟩ <;> rfl

theorem onePage_fill : ∀ (level : Nat) (s : Store) (table : Nat) (a : Linear),
    s.WellFormed (level + 1) table → s.Bounded →
      OnePage a (level + 1) table s (fill (level + 1) s table a 1).value := by
  intro level
  induction level with
  | zero =>
    intro s table a well bounded
    have entered := entered_of_descend well bounded a
    rw [fill_one]
    rcases went : (s.descend 1 table a).value with ⟨e | f, s₁⟩ <;> rw [went] at entered
    · obtain ⟨rfl, looked⟩ := entered
      exact ⟨looked, fun _ => rfl⟩
    · simp only [fill, Logged.value_pure, Nat.sub_self, fillSlots_done]
      exact onePage_last entered
  | succ level ih =>
    intro s table a well bounded
    have entered := entered_of_descend well bounded a
    obtain ⟨first, -⟩ := grown_descend well bounded a
    rw [fill_one]
    rcases went : (s.descend (level + 2) table a).value with ⟨e | f, s₁⟩ <;>
      rw [went] at entered first
    · obtain ⟨rfl, looked⟩ := entered
      exact ⟨looked, fun _ => rfl⟩
    · have well₁ := first.wellFormed well
      have inner := well₁.below entered.linked
      have page := entered.onePage (onePage_below well₁ entered.linked
        (grown_fill (level + 1) s₁ f a 1 inner (first.bounded bounded))
        (ih s₁ f a inner (first.bounded bounded)))
      rcases filled : (fill (level + 1) s₁ f a 1).value with ⟨e | left, s₂⟩ <;>
        rw [filled] at page
      · simp only [filled]
        exact page
      · obtain ⟨rfl, backs⟩ := page
        simp only [filled, fillSlots_done]
        exact ⟨rfl, backs⟩

/-! ## Whole trees -/

/-- From `s` to `s'` the page of an address came to be backed in the tree at `root`. Either it was
before, or it led nowhere and now leads to a cleared frame that was free. -/
structure PageBacked (root address : Nat) (s s' : Store) : Prop where
  beside : ∀ b, pageOf b ≠ pageOf address →
    s'.memory.translate root b = s.memory.translate root b
  backed : ∃ f, (∀ b, pageOf b = pageOf address →
      s'.memory.translate root b = some (f * frameBytes + b % frameBytes)) ∧
    ((∀ b, pageOf b = pageOf address →
        s.memory.translate root b = s'.memory.translate root b) ∨
      (∀ b, pageOf b = pageOf address → s.memory.translate root b = none) ∧
        s.frames.isTaken f = false ∧ s'.frames.isTaken f = true ∧
        ∀ i, s'.memory.entry f i = .zero)

variable {root address : Nat}

theorem Backs.pageBacked (backs : Backs (.ofNat address) 4 root s s')
    (grown : Grown 4 root s s') : PageBacked root address s s' := by
  obtain ⟨beside, f, there, before⟩ := backs
  have lands : ∀ {m : Memory} {b : Nat}, pageOf b = pageOf address →
      m.follow 4 root ((Linear.ofNat address).path 4) = some f →
      m.translate root b = some (f * frameBytes + b % frameBytes) := by
    intro m b same leads
    have offset : (Linear.ofNat b).toNat % frameBytes = b % frameBytes := by
      rw [Linear.toNat_ofNat]
      exact Nat.mod_mod_of_dvd b (by decide)
    rw [← path_eq_iff.mpr same] at leads
    rw [Memory.translate, Memory.walk_of_follow leads, offset]
  refine ⟨fun b other => beside _ fun same => other (path_eq_iff.mp same), f,
    fun b same => lands same there, ?_⟩
  rcases before with kept | none
  · refine .inl fun b same => ?_
    rw [lands same there, lands same kept]
  · refine .inr ⟨fun b same => none _ (path_eq_iff.mpr same), ?_⟩
    rcases grown.fresh _ f there with kept | free
    · -- a page that was there would have been translated
      have before := none _ rfl
      rw [Memory.walk_of_follow kept] at before
      cases before
    · exact ⟨free, (grown.taken f).mpr (.inr ⟨_, there⟩), fun i =>
        (grown.new _ f there free i).2 (Linear.length_path _ 4)⟩

theorem map_one (well : s.WellFormed 4 root) (bounded : s.Bounded) (address : Nat) :
    match (s.map root address 1).value with
    | (.ok (), s') => PageBacked root address s s'
    | (.error e, s') => e.refuses = false ∧
        ∀ b, s'.memory.translate root b = s.memory.translate root b := by
  have page := onePage_fill 3 s root (.ofNat address) well bounded
  have grown := grown_fill 4 s root (.ofNat address) 1 well bounded
  rw [value_map]
  rcases filled : (fill 4 s root (.ofNat address) 1).value with ⟨e | left, s'⟩ <;>
    rw [filled] at page grown
  · exact ⟨page.1, fun b => page.2 (.ofNat b)⟩
  · obtain ⟨rfl, backs⟩ := page
    exact backs.pageBacked grown

/-- How a fault is answered: by a page, by a refusal that leaves all as it was, or by a failure that
no translation notices. -/
structure Answered (root : Nat) (code : FaultCode) (address : Nat) (window : Span) (s : Store)
    (r : Except PagingError Unit × Store) : Prop where
  resolved : r.1 = .ok () →
    code.present = false ∧ window.contains address = true ∧ PageBacked root address s r.2
  violation : r.1 = .error (.protectionViolation address) ↔ code.present = true
  range : r.1 = .error (.outOfRange address) ↔
    code.present = false ∧ window.contains address = false
  refused : ∀ e, r.1 = .error e → e.refuses = true → r.2 = s
  failed : ∀ e, r.1 = .error e → ∀ b, r.2.memory.translate root b = s.memory.translate root b

theorem answered_handleFault (well : s.WellFormed 4 root) (bounded : s.Bounded) (code : FaultCode)
    (address : Nat) (window : Span) :
    Answered root code address window s (s.handleFault root code address window).value := by
  cases present : code.present with
  | true =>
    have refused : (s.handleFault root code address window).value =
        (.error (.protectionViolation address), s) := by
      simp [handleFault, refusal?, present]
    rw [refused]
    refine ⟨fun ok => (by cases ok), ?_, ?_, fun _ _ _ => rfl, fun _ _ _ => rfl⟩ <;> simp [present]
  | false =>
    cases inside : window.contains address with
    | false =>
      have refused : (s.handleFault root code address window).value =
          (.error (.outOfRange address), s) := by
        simp [handleFault, refusal?, present, inside]
      rw [refused]
      refine ⟨fun ok => (by cases ok), ?_, ?_, fun _ _ _ => rfl, fun _ _ _ => rfl⟩ <;>
        simp [present, inside]
    | true =>
      have mapped : (s.handleFault root code address window).value =
          (s.map root address 1).value := by
        simp [handleFault, refusal?, present, inside]
      have one := map_one well bounded address
      rw [mapped]
      rcases done : (s.map root address 1).value with ⟨e | ⟨⟩, s'⟩ <;> rw [done] at one
      · -- what the walk fails with is no refusal
        have other : ∀ e' : PagingError, e'.refuses = true →
            (Except.error e : Except PagingError Unit) ≠ .error e' := by
          rintro e' refuses ⟨⟩
          rw [one.1] at refuses
          cases refuses
        refine ⟨fun ok => (by cases ok), ?_, ?_,
          fun e' same refuses => absurd same (other e' refuses), fun _ _ => one.2⟩
        · simp [present, other (.protectionViolation address) rfl]
        · simp [present, inside, other (.outOfRange address) rfl]
      · refine ⟨fun _ => ⟨present, inside, one⟩, ?_, ?_, fun _ none => (by cases none),
          fun _ none => by cases none⟩ <;> simp [present, inside]

end Store

end Nucleus
