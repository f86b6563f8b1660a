import Nucleus.Word

/-!
# Journal

What the kernel writes to its log. A computation that writes is a `Logged` value: the answer
beside the records, oldest first, so that a statement about the answer (`Logged.value`) never
has to mention the log.

* `Logged.value_bind`, `Logged.value_pure`: taking the answer commutes with sequencing.
* `Level.severity`: the scale that a threshold cuts.
-/

namespace Nucleus

inductive Level where
  | error | warn | info | debug | trace
deriving DecidableEq, Repr

namespace Level

/-- From the gravest down. -/
def all : List Level := [error, warn, info, debug, trace]

/-- Smaller is graver. -/
def severity : Level → Nat
  | error => 1
  | warn => 2
  | info => 3
  | debug => 4
  | trace => 5

def name : Level → String
  | error => "ERROR"
  | warn => "WARN"
  | info => "INFO"
  | debug => "DEBUG"
  | trace => "TRACE"

end Level

structure Record where
  level : Level
  target : String
  message : String
deriving DecidableEq, Repr

/-- A log sink with a threshold; without one it is off. -/
structure Logger where
  threshold : Option Level
deriving DecidableEq, Repr

namespace Logger

def enabled (l : Logger) (level : Level) : Bool :=
  match l.threshold with
  | none => false
  | some t => level.severity ≤ t.severity

/-- The records that pass the threshold, in their order. -/
def filter (l : Logger) (rs : List Record) : List Record :=
  rs.filter fun r => l.enabled r.level

/-- Only one sink can be installed in the life of the system. -/
inductive SetError where
  | alreadySet
deriving DecidableEq, Repr

def SetError.message : SetError → String
  | .alreadySet => "attempted to set a logger after the logging system was already initialized"

/-- Install `l` unless a sink is there already. -/
def install (present : Option Logger) (l : Logger) : Except SetError Logger :=
  match present with
  | none => .ok l
  | some _ => .error .alreadySet

end Logger

/-- An answer together with what was written on the way to it, oldest first. -/
structure Logged (α : Type u) where
  value : α
  records : List Record

namespace Logged

instance : Monad Logged where
  pure a := ⟨a, []⟩
  bind x f :=
    let y := f x.value
    ⟨y.value, x.records ++ y.records⟩

/-- Write one record. -/
def note (level : Level) (target message : String) : Logged Unit :=
  ⟨(), [⟨level, target, message⟩]⟩

@[simp] theorem value_pure (a : α) : (pure a : Logged α).value = a := rfl

@[simp] theorem records_pure (a : α) : (pure a : Logged α).records = [] := rfl

@[simp] theorem value_bind (x : Logged α) (f : α → Logged β) :
    (x >>= f).value = (f x.value).value := rfl

@[simp] theorem records_bind (x : Logged α) (f : α → Logged β) :
    (x >>= f).records = x.records ++ (f x.value).records := rfl

@[simp] theorem value_note (l : Level) (t m : String) : (note l t m).value = () := rfl

@[simp] theorem value_map (f : α → β) (x : Logged α) : (f <$> x).value = f x.value := rfl

instance : LawfulMonad Logged :=
  LawfulMonad.mk' Logged
    (by intro α x; cases x; simp [Functor.map])
    (by intro α β x f; simp [bind, pure])
    (by intro α β γ x f g; simp [bind])

end Logged

/-- A logged computation that stops at the first failed check. -/
abbrev Checked := ExceptT Panic Logged

namespace Checked

/-- Write one record on the way. -/
def note (level : Level) (target message : String) : Checked Unit :=
  ExceptT.mk (.ok <$> Logged.note level target message)

/-- Stop if the check failed. -/
def check (r : Except Panic α) : Checked α := ExceptT.mk (pure r)

/-- A computation that checks nothing. -/
def ofLogged (x : Logged α) : Checked α := ExceptT.mk (.ok <$> x)

@[simp] theorem value_run_pure (a : α) : ((pure a : Checked α).run).value = .ok a := rfl

@[simp] theorem value_run_note (l : Level) (t m : String) : (note l t m).run.value = .ok () := rfl

@[simp] theorem value_run_check (r : Except Panic α) : (check r).run.value = r := rfl

@[simp] theorem value_run_ofLogged (x : Logged α) : (ofLogged x).run.value = .ok x.value := rfl

@[simp] theorem value_run_bind (x : Checked α) (f : α → Checked β) :
    (x >>= f).run.value = x.run.value.bind fun a => (f a).run.value := by
  rw [ExceptT.run_bind, Logged.value_bind]
  cases x.run.value <;> rfl

end Checked

end Nucleus
