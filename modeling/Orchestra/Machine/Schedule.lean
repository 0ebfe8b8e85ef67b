import Orchestra.Machine.Step

/-!
# Who goes next

One task runs at a time, until it has to wait.  Tasks that are ready take turns, first come first
served, and the clock moves to the next deadline only when nobody is ready.

* `State.park` — a task that cannot go on takes its place in the order of those that wait, and its
  timers take theirs;
* `State.tick` — the clock moves to the next deadline, and those who wait for it are woken in the
  order of their timers;
* `State.pick` — the task whose turn it is;
* `State.run` — turns and ticks until the main task has ended and everybody waits;
* `State.perform` — lets the main task run a program within a limit of time.
-/

namespace Orchestra.Machine

variable {A : Application}

/-- Gives each timer of the calls in progress that has no place yet the next one, innermost
first. -/
def stampFrames (stamp : Nat) : List (Frame A) → List (Frame A) × Nat
  | [] => ([], stamp)
  | f :: rest =>
    match f.guard with
    | some { limit, due, stamp := none } =>
      let (rest, next) := stampFrames (stamp + 1) rest
      ({ f with guard := some ⟨limit, due, some stamp⟩ } :: rest, next)
    | _ =>
      let (rest, next) := stampFrames stamp rest
      (f :: rest, next)

/-- The deadline of a wait. -/
def Wait.due? : Wait A → Option Nat
  | sleeping due _ => some due
  | cancelledBy _ due _ => some due
  | crew _ due _ => some due
  | _ => none

/-- The timers of a waiting task: their places and deadlines. -/
def Task.timers (k : Task A) : List (Nat × Nat) :=
  match k.status with
  | .waiting w stamp =>
    let own := match stamp, w.due? with
      | some place, some due => [(place, due)]
      | _, _ => []
    own ++ k.frames.filterMap fun f => do
      let g ← f.guard
      let place ← g.stamp
      return (place, g.due)
  | _ => []

namespace State

/-- Gives a task that cannot go on its place among those that wait. -/
def park (t : TaskId) (s : State A) : State A :=
  match s.tasks[t]? with
  | some k => match k.status with
    | .waiting w none =>
      let (frames, next) := stampFrames (s.stamp + 1) k.frames
      let k := { k with frames := frames, status := .waiting w (some s.stamp) }
      { s with stamp := next, tasks := s.tasks.set t k }
    | _ => s
  | none => s

/-- What is to happen at a moment, in the order of the timers. -/
inductive Firing where
  | task (t : TaskId)
  | alarm (what : Outside)
  deriving DecidableEq, Repr, Inhabited

/-- The next deadline. -/
def nextDue (s : State A) : Option Nat :=
  ((s.tasks.flatMap Task.timers).map Prod.snd ++ s.alarms.map Alarm.due).min?

/-- What happens at a moment, with the places of the timers. -/
def firings (now : Nat) (s : State A) : List (Nat × Firing) :=
  let tasks := (List.range s.tasks.length).flatMap fun t =>
    match s.tasks[t]? with
    | some k => (k.timers.filter fun e => e.2 ≤ now).map fun e => (e.1, Firing.task t)
    | none => []
  let alarms := (s.alarms.filter fun a => a.due ≤ now).map fun a => (a.stamp, Firing.alarm a.what)
  sortBy (fun a b => a.1 ≤ b.1) (tasks ++ alarms)

/-- Whether a wait is for termination. -/
def awaitsTermination : Wait A → Bool
  | .termination .. => true
  | _ => false

/-- Hands a signal to a wait for termination that has not had one. -/
def signalled (g : Signal) : Status A → Status A
  | .waiting (.termination request none next) stamp =>
    .waiting (.termination request (some g) next) stamp
  | status => status

/-- A signal comes: everybody who waits for termination is told, or else the process ends, if it is
not to be told of this signal. -/
def deliverSignal (g : Signal) (s : State A) : State A :=
  if g ∈ s.handled then
    let told := s.tasks.map fun k => { k with status := signalled g k.status }
    { s with tasks := told }.wakeAll (s.waitingFor awaitsTermination)
  else { s with exited := some (.killed g) }

/-- Lets one thing happen, unless the process has ended. -/
def fire (s : State A) (f : Firing) : State A :=
  if s.exited.isSome then s
  else match f with
    | .task t => s.wake t
    | .alarm (.signal g) => s.deliverSignal g
    | .alarm (.cancel token) => s.cancel token

/-- Moves the clock to the next deadline, if there is one. -/
def tick (s : State A) : Option (State A) :=
  s.nextDue.map fun due =>
    let now := max s.now due
    let happening := s.firings now
    let s := { s with now := now, alarms := s.alarms.filter fun a => now < a.due }
    happening.foldl (fun s e => s.fire e.2) s

/-- Whether the main task has nothing to do. -/
def mainIdle (s : State A) : Bool :=
  match (s.tasks[mainTask]?).map Task.status with
  | some (.ended _) | none => true
  | some _ => false

/-- The task whose turn it is. -/
def pick (s : State A) : Option (TaskId × State A) :=
  match s.ready with
  | [] => none
  | t :: rest => some (t, { s with ready := rest })

/-- The beginning of a task's turn: a task that was told to end does so. -/
def begin (t : TaskId) (s : State A) : State A :=
  match s.tasks[t]? with
  | some k => match k.status with
    | .ended _ => s
    | _ => if k.aborted then s.finish t .aborted else s
  | none => s

/-- Turns and ticks, at most `fuel` of them, until the main task has ended and nobody is ready.
`current` is the task whose turn it is. -/
def run (w : World A) : Nat → Option TaskId → State A → State A
  | 0, _, s => s
  | fuel + 1, current, s =>
    if s.exited.isSome then s
    else match current with
      | some t => match s.advance w t with
        | some s' => run w fuel (some t) s'
        | none => run w fuel none (s.park t)
      | none => match s.pick with
        | some (t, s') => run w fuel (some t) (s'.begin t)
        | none =>
          if s.mainIdle then s
          else match s.tick with
            | some s' => run w fuel none s'
            | none => s

/-- How many turns and ticks one program of the main task may take. -/
def patience : Nat := 100000000

/-- Lets the main task run a program for no longer than a limit, and everybody else until they
wait. -/
def perform (w : World A) (p : Program A Outcome) (limit : Duration) (s : State A) : State A :=
  let guard : Guard := { limit := limit, due := s.now + limit.ceilMillis }
  let k : Task A :=
    { role := .main, status := .running p
      frames := [⟨some guard, 0, fun _ => .done (.ok ())⟩] }
  run w patience (some mainTask) { s with tasks := s.tasks.set mainTask k }

end State

end Orchestra.Machine
