import Mathlib.Logic.Function.Basic
import Orchestra.Machine.Schedule

/-!
# What one step can do

Most of a state has nothing to do with the listeners of a bus.  What has is said here once, for one step
of one task.

* `Core` — what matters of a task: what it is doing, the calls around it and its deliveries;
* `Buses` — the buses, and what becomes of their locks and listeners;
* `Step` — one step of one task, as a relation between the buses and the task's core before and after.

Timers, records, tokens, crews and flags are left out, and so is the reason why a call is left: a step may
leave a call at any time, as if it had a limit that has just been reached.
-/

namespace Orchestra

variable {A : Application}

/-- An operation that has nothing to do with calls, deliveries and buses. -/
def Op.IsApart : Op A → Prop
  | .call .. | .panic _ | .enclosing _ | .beginDelivery _ | .endDelivery | .listeners _ | .edit ..
  | .record _ => False
  | _ => True

namespace Machine

/-! ### Cores -/

/-- What a task is doing, apart from timers. -/
inductive Doing (A : Application) where
  | running (program : Program A Outcome)
  | waiting (wait : Wait A)
  | ended

/-- A wait without the signal that was handed to it. -/
def Wait.bare : Wait A → Wait A
  | termination request _ next => termination request none next
  | w => w

/-- What a task of a status is doing. -/
def Status.doing : Status A → Doing A
  | running p => .running p
  | waiting w _ => .waiting w.bare
  | ended _ => .ended

/-- The claim behind what a task is doing. -/
def Doing.claim? (t : TaskId) : Doing A → Option (BusId × Claim)
  | waiting w => w.claim? t
  | _ => none

/-- The programs that a task may go on with when its wait is over. -/
def Wait.MayGoOn : Wait A → Program A Outcome → Prop
  | beginning _ next, p | reading _ next, p => ∃ set, p = next set
  | editing _ _ next, p | replacing _ _ _ next, p | crew _ _ next, p | cancelledBy _ _ next, p =>
    ∃ b, p = next b
  | sleeping _ next, p | cancelled _ next, p => p = next
  | joining _ next, p => ∃ e, p = next e
  | termination _ _ next, p => ∃ cause, p = next cause
  | forever, _ => False

/-- The programs that a task may go on with after its next operation, or when its wait is over. -/
def Doing.MayGoOn : Doing A → Program A Outcome → Prop
  | running (.perform _ next), p => ∃ x, p = next x
  | waiting w, p => w.MayGoOn p
  | _, _ => False

/-- The program that a task runs, or those that it may run when its wait is over. -/
def Doing.MayRun : Doing A → Program A Outcome → Prop
  | running q, p => p = q
  | waiting w, p => w.MayGoOn p
  | ended, _ => False

/-- The calls around a program, innermost first: how many deliveries were in progress when the call was
made, and how the caller goes on. -/
abbrev Calls (A : Application) := List (Nat × (Outcome → Program A Outcome))

/-- A task without its role and timers: what it is doing, the calls around it, and its deliveries. -/
structure Core (A : Application) where
  doing : Doing A
  calls : Calls A
  passes : List Pass

/-- The core of a task. -/
def Task.core (k : Task A) : Core A :=
  ⟨k.status.doing, k.frames.map fun f => (f.depth, f.caller), k.passes⟩

/-- The core of a task that has been started. -/
def State.core (s : State A) (t : TaskId) : Option (Core A) := (s.tasks[t]?).map Task.core

/-! ### Buses -/

/-- The buses. -/
abbrev Buses := BusId → Option BusState

/-- The buses of a state. -/
def State.bus (s : State A) : Buses := fun b => s.buses[b]?

namespace Buses

/-- Changes the lock of a bus. -/
def onLock (b : BusId) (f : Lock → Lock) (g : Buses) : Buses :=
  Function.update g b ((g b).map fun bs => { bs with lock := f bs.lock })

/-- Replaces the listeners of a bus. -/
def setListeners (b : BusId) (set : List ListenerId) (g : Buses) : Buses :=
  Function.update g b ((g b).map fun bs => { bs with listeners := set })

/-- Gives a claim back. -/
def release (b : BusId) (c : Claim) (g : Buses) : Buses := g.onLock b fun l => (l.release c).1

/-- Takes back the claim behind what a task is doing. -/
def withdraw (c : Option (BusId × Claim)) (g : Buses) : Buses :=
  match c with
  | none => g
  | some (b, c) => g.onLock b fun l => (l.withdraw c).1

/-- Ends deliveries, one after another. -/
def endPasses (t : TaskId) (ps : List Pass) (g : Buses) : Buses :=
  ps.foldl (fun g p => g.release p.bus ⟨t, .read⟩) g

end Buses

/-! ### Steps -/

/-- How many deliveries were in progress when the innermost call was made. -/
def depthOf (calls : Calls A) : Nat :=
  ((calls.head?).map Prod.fst).getD 0

/-- One step of task `t`. -/
inductive Step (w : World A) (t : TaskId) : Buses → Core A → Buses → Core A → Prop where
  /-- Something happens that has nothing to do with calls, deliveries and buses. -/
  | goes {g : Buses} {doing doing' : Doing A}
      {calls : Calls A} {passes : List Pass} :
      doing.claim? t = none → doing ≠ .ended → doing'.claim? t = none → doing' ≠ .ended →
      (∀ op next, doing = .running (.perform op next) → op.IsApart) →
      (∀ p, doing'.MayRun p → doing.MayGoOn p) →
      Step w t g ⟨doing, calls, passes⟩ g ⟨doing', calls, passes⟩
  | records {g : Buses} {r : Record} {next : Unit → Program A Outcome}
      {calls : Calls A} {passes : List Pass} :
      Step w t g ⟨.running (.perform (.record r) next), calls, passes⟩
        g ⟨.running (next ()), calls, passes⟩
  | looks {g : Buses} {b : BusId} {next : Option (List ListenerId) → Program A Outcome}
      {calls : Calls A} {passes : List Pass} :
      Step w t g ⟨.running (.perform (.enclosing b) next), calls, passes⟩
        g ⟨.running (next ((passes.find? fun p => p.bus = b).map Pass.set)), calls, passes⟩
  | enters {g : Buses} {callee : Callee} {limit : Option Duration}
      {next : Outcome → Program A Outcome}
      {calls : Calls A} {passes : List Pass} :
      Step w t g ⟨.running (.perform (.call callee limit) next), calls, passes⟩
        g ⟨.running (w.body callee), (passes.length, next) :: calls, passes⟩
  | wantsToBegin {g : Buses} {b : BusId} {next : List ListenerId → Program A Outcome}
      {calls : Calls A} {passes : List Pass} :
      Step w t g ⟨.running (.perform (.beginDelivery b) next), calls, passes⟩
        (g.onLock b fun l => l.ask ⟨t, .read⟩) ⟨.waiting (.beginning b next), calls, passes⟩
  | wantsToRead {g : Buses} {b : BusId} {next : List ListenerId → Program A Outcome}
      {calls : Calls A} {passes : List Pass} :
      Step w t g ⟨.running (.perform (.listeners b) next), calls, passes⟩
        (g.onLock b fun l => l.ask ⟨t, .read⟩) ⟨.waiting (.reading b next), calls, passes⟩
  | wantsToEdit {g : Buses} {b : BusId} {e : Edit} {next : Bool → Program A Outcome}
      {calls : Calls A} {passes : List Pass} :
      Step w t g ⟨.running (.perform (.edit b e) next), calls, passes⟩
        (g.onLock b fun l => l.ask ⟨t, .write⟩) ⟨.waiting (.editing b e next), calls, passes⟩
  | begins {g : Buses} {b : BusId} {bs : BusState} {next : List ListenerId → Program A Outcome}
      {calls : Calls A} {passes : List Pass} :
      g b = some bs → bs.lock.isWaiting t = false →
      Step w t g ⟨.waiting (.beginning b next), calls, passes⟩
        g ⟨.running (next bs.listeners), calls, ⟨b, bs.listeners⟩ :: passes⟩
  | reads {g : Buses} {b : BusId} {bs : BusState} {next : List ListenerId → Program A Outcome}
      {calls : Calls A} {passes : List Pass} :
      g b = some bs → bs.lock.isWaiting t = false →
      Step w t g ⟨.waiting (.reading b next), calls, passes⟩
        (g.release b ⟨t, .read⟩) ⟨.running (next bs.listeners), calls, passes⟩
  | copies {g : Buses} {b : BusId} {bs : BusState} {e : Edit} {next : Bool → Program A Outcome}
      {calls : Calls A} {passes : List Pass} :
      g b = some bs → bs.lock.isWaiting t = false →
      Step w t g ⟨.waiting (.editing b e next), calls, passes⟩
        g ⟨.waiting (.replacing b e bs.listeners next), calls, passes⟩
  | replaces {g : Buses} {b : BusId} {e : Edit} {copy : List ListenerId}
      {next : Bool → Program A Outcome}
      {calls : Calls A} {passes : List Pass} :
      Step w t g ⟨.waiting (.replacing b e copy next), calls, passes⟩
        ((g.setListeners b (e.apply copy)).release b ⟨t, .write⟩)
        ⟨.running (next (e.changes copy)), calls, passes⟩
  | ends {g : Buses} {next : Unit → Program A Outcome} {p : Pass}
      {calls : Calls A} {passes : List Pass} :
      depthOf calls ≤ passes.length →
      Step w t g ⟨.running (.perform .endDelivery next), calls, p :: passes⟩
        (g.release p.bus ⟨t, .read⟩) ⟨.running (next ()), calls, passes⟩
  | endsNothing {g : Buses} {next : Unit → Program A Outcome}
      {calls : Calls A} {passes : List Pass} :
      passes.length ≤ depthOf calls →
      Step w t g ⟨.running (.perform .endDelivery next), calls, passes⟩
        g ⟨.running (next ()), calls, passes⟩
  /-- A call is left, by its end, a panic or its limit; but nobody leaves while alone with the
  listeners of a bus. -/
  | leaves {g : Buses} {doing : Doing A} {depth : Nat} {caller : Outcome → Program A Outcome}
      {inner rest : Calls A} {passes : List Pass} (o : Outcome) :
      doing ≠ .ended → (∀ b e copy next, doing ≠ .waiting (.replacing b e copy next)) →
      Step w t g ⟨doing, inner ++ (depth, caller) :: rest, passes⟩
        ((g.withdraw (doing.claim? t)).endPasses t (passes.take (passes.length - depth)))
        ⟨.running (caller o), rest, passes.drop (passes.length - depth)⟩
  | finishes {g : Buses} {doing : Doing A}
      {calls : Calls A} {passes : List Pass} :
      doing ≠ .ended →
      Step w t g ⟨doing, calls, passes⟩ ((g.withdraw (doing.claim? t)).endPasses t passes)
        ⟨.ended, [], []⟩

end Machine

end Orchestra
