import Nucleus.Core.Operations

/-!
# Acts and scripts

`perform` does one act. While its caller is switched away, the first script that is left runs: a
list of acts, each of which may give control away itself and so take further scripts. Every switch
uses up a script, so the number of scripts bounds how deep acts nest.

* `Core.step`: one act from outside, with the events it caused.
-/

namespace Nucleus.Core

/-- The answer of an operation that a task error may refuse. -/
def answerTask (ok : α → Answer) : Except TaskError α → Answer
  | .ok a => ok a
  | .error e => .taskError e

def answerPaging (ok : α → Answer) : Except PagingError α → Answer
  | .ok a => ok a
  | .error e => .pagingError e

def call (away : CoreM Unit) : Call → CoreM Answer
  | .create => Answer.id <$> create
  | .prime id entry arg areas => answerTask (fun _ => .done) <$> prime id entry arg areas
  | .spawn entry arg level areas => answerTask .id <$> spawn entry arg level areas
  | .wakeup id level => answerTask (fun _ => .done) <$> wakeup id level
  | .sleep id => answerTask (fun _ => .done) <$> sleep away id
  | .send id m => answerTask (fun _ => .done) <$> send id m
  | .receive id => answerTask .message <$> receive id
  | .receiveOrSleep id => do
    let rounds := (← get).scripts.length + 2
    answerTask .message <$> receiveOrSleep away id rounds
  | .addTimer ticks value owner => (fun _ => .done) <$> addTimer ticks value owner
  | .setWindow id w => answerTask (fun _ => .done) <$> setWindow id w
  | .timerInterrupt saved => (fun _ => .done) <$> masked (timerInterrupt saved)
  | .pageFault code a => answerPaging (fun _ => .done) <$> masked (pageFault code a)
  | .idle => (fun _ => .done) <$> idle
  | .install => (fun _ => .done) <$> install
  | .timerTrap saved => (fun _ => .done) <$> masked (timerTrap saved)
  | .faultTrap code a => do
    if ← masked (faultTrap code a) then pure .done else pure .halted

/-- Do one act. -/
def perform (away : CoreM Unit) : Act → CoreM Answer
  | .call c => call away c
  | .task id => masked <| withTasks fun s =>
    match s.task? id with
    | some t => pure (.task id t, s)
    | none => pure (.taskError (.noSuchTask id), s)
  | .translate a => do
    let c ← get
    pure (.address (c.memory.translate c.root a))
  | .loadCr3 v => do
    modify fun c => { c with cr3 := v }
    pure .done
  | .newUserTree => do
    let root := (← get).root
    let r ← masked <| withFrames fun s => s.newUserTree root
    pure (answerPaging (fun f => .address (some (f * Platform.frameBytes))) r)
  | .poke f i e => do
    modify fun c => { c with memory := c.memory.put f i e }
    pure .done
  | .allocate n => masked <| withFrames fun s => do
    match ← s.frames.allocate n with
    | .ok (f, frames) => pure (.frame f, { s with frames := frames })
    | .error e => pure (.allocError e, s)
  | .release start n => masked <| withFrames fun s =>
    pure (.done, { s with frames := s.frames.release start n })

/-- Do the acts of a script in order, up to one that stops the processor. -/
def play (away : CoreM Unit) : List Act → CoreM Unit
  | [] => pure ()
  | a :: as => do
    let r ← perform away a
    emit fun _ => .ran r
    if r.isHalted then pure () else play away as

/-- What happens while a caller is switched away, up to `depth` switches deep. -/
def away : (depth : Nat) → CoreM Unit
  | 0 => pure ()
  | depth + 1 => do
    match (← get).scripts with
    | [] => pure ()
    | script :: rest => do
      modify fun c => { c with scripts := rest }
      play (away depth) script

/-- Do one act from outside: the answer and the events on the way. -/
def step (c : Core) (a : Act) : Checked (Answer × List Event × Core) := do
  let (r, c) ← (perform (away c.scripts.length) a).run { c with events := [] }
  pure (r, c.events, c)

end Nucleus.Core
