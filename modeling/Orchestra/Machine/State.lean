import Orchestra.Machine.Lock
import Orchestra.Sort

/-!
# The state of a process

A process runs tasks that share buses, tokens, crews and a clock.

* `Frame` — a guarded call in progress: its limit, and what the caller does with the outcome;
* `Pass` — a delivery in progress: a bus, which it keeps readable, and the listeners it holds;
* `Wait` — what a task is waiting for, and how it goes on;
* `Task` — a program in progress with the calls and deliveries around it;
* `Token`, `CrewState`, `Alarm` — cancellation, workers, and what happens from outside at a given
  time;
* `Exit` — how a process has ended;
* `State` — all of it.  Time is counted in whole milliseconds and moves only when nothing else can.

`State.start` is the state before anything happens.
-/

namespace Orchestra.Machine

/-- The limit of a guarded call. -/
structure Guard where
  limit : Duration
  /-- The moment at which the limit is reached. -/
  due : Nat
  /-- The place in the order of timers, once the call has had to wait. -/
  stamp : Option Nat := none
  deriving DecidableEq, Repr, Inhabited

/-- A guarded call in progress. -/
structure Frame (A : Application) where
  guard : Option Guard
  /-- How many deliveries were in progress when the call was made. -/
  depth : Nat
  caller : Outcome → Program A Outcome

/-- A delivery in progress. -/
structure Pass where
  bus : BusId
  set : List ListenerId
  deriving DecidableEq, Repr, Inhabited

/-- What a task is waiting for. -/
inductive Wait (A : Application) where
  /-- To begin a delivery. -/
  | beginning (bus : BusId) (next : List ListenerId → Program A Outcome)
  /-- To read the listeners. -/
  | reading (bus : BusId) (next : List ListenerId → Program A Outcome)
  /-- To change the listeners. -/
  | editing (bus : BusId) (edit : Edit) (next : Bool → Program A Outcome)
  /-- Alone with the listeners, of which it has taken a copy to change. -/
  | replacing (bus : BusId) (edit : Edit) (copy : List ListenerId)
      (next : Bool → Program A Outcome)
  | sleeping (due : Nat) (next : Program A Outcome)
  | cancelled (token : TokenId) (next : Program A Outcome)
  /-- For a token to be cancelled, but not beyond a moment. -/
  | cancelledBy (token : TokenId) (due : Nat) (next : Bool → Program A Outcome)
  | joining (task : TaskId) (next : Option Ending → Program A Outcome)
  /-- For a crew to become empty, but not beyond a moment. -/
  | crew (crew : CrewId) (due : Nat) (next : Bool → Program A Outcome)
  | termination (request : TokenId) (signal : Option Signal)
      (next : Termination → Program A Outcome)
  | forever

/-- What a task is doing.  A waiting task has a place in the order of those that wait, once it has
been found unable to go on. -/
inductive Status (A : Application) where
  | running (program : Program A Outcome)
  | waiting (wait : Wait A) (stamp : Option Nat)
  | ended (ending : Ending)

/-- What a task is there for. -/
inductive Role where
  | main
  | task
  | worker (crew : CrewId) (number : Nat) (name : String)
  deriving DecidableEq, Repr, Inhabited

/-- A program in progress. -/
structure Task (A : Application) where
  role : Role
  status : Status A
  /-- The calls around the program, innermost first. -/
  frames : List (Frame A) := []
  /-- The deliveries around the program, innermost first. -/
  passes : List Pass := []
  /-- Whether the task is to end at its next wait. -/
  aborted : Bool := false

/-- What a task is waiting for, and its place in the order of those that wait. -/
def Task.wait? {A : Application} (k : Task A) : Option (Wait A × Option Nat) :=
  match k.status with
  | .waiting w stamp => some (w, stamp)
  | _ => none

/-- A cancellation token. -/
structure Token where
  parent : Option TokenId
  cancelled : Bool := false
  deriving DecidableEq, Repr, Inhabited

/-- The workers of an ensemble. -/
structure CrewState where
  closed : Bool := false
  /-- How many workers are counted. -/
  tracked : Nat := 0
  /-- The workers that are running, by number and name. -/
  alive : List (Nat × String) := []
  /-- The number of the next worker. -/
  next : Nat := 0
  /-- Whether the last worker has ended since the wait for the crew began. -/
  emptied : Bool := false
  deriving DecidableEq, Repr, Inhabited

namespace CrewState

/-- The names of the running workers, sorted. -/
def names (c : CrewState) : List String :=
  sortBy (fun a b => a ≤ b) (c.alive.map Prod.snd)

/-- Whether the crew is closed and nobody is counted. -/
def isDone (c : CrewState) : Bool := (c.closed && c.tracked == 0) || c.emptied

/-- The crew with one more worker; answers the worker's number. -/
def enrol (c : CrewState) (name : String) : CrewState × Nat :=
  ({ c with tracked := c.tracked + 1, alive := c.alive ++ [(c.next, name)], next := c.next + 1 },
    c.next)

/-- The crew once a worker no longer runs. -/
def dismiss (c : CrewState) (number : Nat) : CrewState :=
  { c with alive := c.alive.filter fun e => e.1 ≠ number }

/-- The crew once a worker is no longer counted. -/
def uncount (c : CrewState) : CrewState :=
  { c with tracked := c.tracked - 1, emptied := c.emptied || (c.closed && c.tracked == 1) }

end CrewState

/-- What happens from outside. -/
inductive Outside where
  | signal (s : Signal)
  | cancel (token : TokenId)
  deriving DecidableEq, Repr, Inhabited

/-- Something from outside that happens at a given time. -/
structure Alarm where
  due : Nat
  stamp : Nat
  what : Outside
  deriving DecidableEq, Repr, Inhabited

/-- How a process has ended. -/
inductive Exit where
  /-- It has ended itself, with a status and last words. -/
  | status (number : Nat) (complaint : String)
  /-- A signal has ended it that it was not to be told of. -/
  | killed (s : Signal)
  deriving DecidableEq, Repr, Inhabited

namespace Exit

/-- The status with which a process has ended; after a signal it is told by the signal's number. -/
def code : Exit → Nat
  | status number _ => number
  | killed s => 128 + s.number

/-- The last words of a process. -/
def complaint : Exit → String
  | status _ complaint => complaint
  | killed _ => ""

end Exit

/-- The state of a process. -/
structure State (A : Application) where
  now : Nat := 0
  /-- The next place in the order of waiting tasks and timers. -/
  stamp : Nat := 0
  /-- Every task ever started; a task's identity is its position. -/
  tasks : List (Task A) := []
  /-- The tasks that may be able to go on, first come first. -/
  ready : List TaskId := []
  buses : List BusState := []
  tokens : List Token := []
  crews : List CrewState := []
  flags : List (ListenerId × Flags) := []
  ensembles : List (String × Ensemble) := []
  /-- The tasks that can be joined, by name. -/
  handles : List (String × TaskId) := []
  alarms : List Alarm := []
  records : List Record := []
  memory : A.Memory
  /-- The signals that the process is told of.  Any other ends it. -/
  handled : List Signal := []
  /-- The signals that it cannot be told of, and why. -/
  refused : List (Signal × String) := []
  /-- Whether a wait for termination looks for a request before it looks for signals.  Nothing is
  known about that, and it may be different every time. -/
  requestFirst : Bool := false
  /-- How the process has ended, once it has. -/
  exited : Option Exit := none

namespace State

variable {A : Application}

/-- The state before anything happens: a main task with nothing to do, and buses without
listeners. -/
def start (buses : Nat) (memory : A.Memory) : State A :=
  { tasks := [{ role := .main, status := .ended .finished }]
    buses := List.replicate buses {}
    memory := memory }

/-- The main task. -/
def mainTask : TaskId := 0

/-- A task that waits may be able to go on: it gets its turn after those that were woken before. -/
def wake (t : TaskId) (s : State A) : State A :=
  match (s.tasks[t]?).bind Task.wait? with
  | some _ => if t ∈ s.ready then s else { s with ready := s.ready ++ [t] }
  | none => s

/-- Wakes tasks one after another. -/
def wakeAll (ts : List TaskId) (s : State A) : State A := ts.foldl (fun s t => s.wake t) s

/-- Changes a task. -/
def onTask (t : TaskId) (f : Task A → Task A) (s : State A) : State A :=
  { s with tasks := s.tasks.modify t f }

/-- What a task does next. -/
def setStatus (t : TaskId) (status : Status A) (s : State A) : State A :=
  s.onTask t fun k => { k with status := status }

/-- Goes on with a program. -/
def resume (t : TaskId) (p : Program A Outcome) (s : State A) : State A :=
  s.setStatus t (.running p)

/-- Changes a bus, and wakes the tasks whose claims were granted. -/
def onLock (bus : BusId) (f : Lock → Lock × List TaskId) (s : State A) : State A :=
  match s.buses[bus]? with
  | none => s
  | some b =>
    let (lock, granted) := f b.lock
    { s with buses := s.buses.set bus { b with lock := lock } }.wakeAll granted

/-- The listeners of a bus. -/
def listenersOf (bus : BusId) (s : State A) : List ListenerId :=
  ((s.buses[bus]?).map BusState.listeners).getD []

/-- Replaces the listeners of a bus. -/
def setListeners (bus : BusId) (set : List ListenerId) (s : State A) : State A :=
  { s with buses := s.buses.modify bus fun b => { b with listeners := set } }

/-- Whether a task's claim on a bus still waits. -/
def claimWaits (bus : BusId) (t : TaskId) (s : State A) : Bool :=
  ((s.buses[bus]?).map fun b => b.lock.isWaiting t).getD true

/-- Makes a claim on a bus. -/
def claim (bus : BusId) (c : Claim) (s : State A) : State A :=
  s.onLock bus fun l => (l.ask c, [])

/-- Whether a token has been cancelled. -/
def isCancelled (token : TokenId) (s : State A) : Bool :=
  ((s.tokens[token]?).map Token.cancelled).getD false

/-- Whether a wait is for a token. -/
def awaits (token : TokenId) : Wait A → Bool
  | .cancelled t _ => t = token
  | .cancelledBy t _ _ => t = token
  | .termination t _ _ => t = token
  | _ => false

/-- The tasks whose waits satisfy a condition, those that waited longest first. -/
def waitingFor (p : Wait A → Bool) (s : State A) : List TaskId :=
  let found : List (Nat × TaskId) := (List.range s.tasks.length).filterMap fun t =>
    match (s.tasks[t]?).bind Task.wait? with
    | some (w, stamp) => if p w then some (stamp.getD s.stamp, t) else none
    | none => none
  (sortBy (fun a b => a.1 ≤ b.1) found).map Prod.snd

/-- Cancels one token and wakes those who wait for it. -/
def cancelOne (token : TokenId) (s : State A) : State A :=
  if s.isCancelled token then s
  else
    let s := { s with tokens := s.tokens.modify token fun k => { k with cancelled := true } }
    s.wakeAll (s.waitingFor (awaits token))

/-- Whether among tokens one has been made from another one, or from one made from that, and so
on: in at most so many steps. -/
def isBelow (tokens : List Token) (root : TokenId) : Nat → TokenId → Bool
  | 0, _ => false
  | steps + 1, token =>
    match (tokens[token]?).bind Token.parent with
    | none => false
    | some parent => parent = root || isBelow tokens root steps parent

/-- The tokens made from a token, directly or not, the latest first. -/
def descendantsOf (token : TokenId) (s : State A) : List TokenId :=
  ((List.range s.tokens.length).filter fun k =>
    isBelow s.tokens token s.tokens.length k).reverse

/-- Cancels a token: first those made from it, directly or not, then the token itself. -/
def cancel (token : TokenId) (s : State A) : State A :=
  if s.isCancelled token then s
  else ((s.descendantsOf token).foldl (fun s k => s.cancelOne k) s).cancelOne token

/-- A new token; one made from a cancelled token is cancelled. -/
def newToken (parent : Option TokenId) (s : State A) : State A × TokenId :=
  let cancelled := (parent.map fun p => s.isCancelled p).getD false
  ({ s with tokens := s.tokens ++ [{ parent := parent, cancelled := cancelled }] },
    s.tokens.length)

/-- Has the process told of signals, one after another, up to the first that it cannot be told of;
answers why not. -/
def handle : List Signal → State A → State A × Option String
  | [], s => (s, none)
  | g :: rest, s =>
    match s.refused.lookup g with
    | some error => (s, some error)
    | none => handle rest { s with handled := if g ∈ s.handled then s.handled else g :: s.handled }

/-- Changes a crew. -/
def onCrew (crew : CrewId) (f : CrewState → CrewState) (s : State A) : State A :=
  { s with crews := s.crews.modify crew f }

/-- Whether a wait is for a crew. -/
def awaitsCrew (crew : CrewId) : Wait A → Bool
  | .crew c _ _ => c = crew
  | _ => false

/-- Whether a wait is for the end of a task. -/
def awaitsEnd (task : TaskId) : Wait A → Bool
  | .joining t _ => t = task
  | _ => false

/-- The flags of a module. -/
def flagsOf (m : ListenerId) (s : State A) : Flags := (s.flags.lookup m).getD {}

/-- Changes the flags of a module. -/
def onFlags (m : ListenerId) (f : Flags → Flags) (s : State A) : State A :=
  { s with flags := (m, f (s.flagsOf m)) :: s.flags.filter fun e => e.1 ≠ m }

/-- Starts a task, which gets its turn after those that are ready. -/
def startTask (role : Role) (p : Program A Outcome) (s : State A) : State A × TaskId :=
  ({ s with tasks := s.tasks ++ [{ role := role, status := .running p }]
            ready := s.ready ++ [s.tasks.length] },
    s.tasks.length)

/-- Stores a value under a name. -/
def put {α : Type} (name : String) (a : α) (entries : List (String × α)) : List (String × α) :=
  (name, a) :: entries.filter fun e => e.1 ≠ name

/-- Adds a record. -/
def log (r : Record) (s : State A) : State A := { s with records := s.records ++ [r] }

end State

end Orchestra.Machine
