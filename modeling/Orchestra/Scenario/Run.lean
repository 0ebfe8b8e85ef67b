import Orchestra.Blueprint
import Orchestra.Machine.Schedule
import Orchestra.Scenario.Behaviour
import Orchestra.Closing

/-!
# Running a scenario

A scenario is a setting and a list of steps, which the main task takes one after another.

* `Step` — an action, or something done with an ensemble;
* `doStep` — the program of a step, which ends with a reply;
* `Report` — what came of a step: the reply, what was noted and recorded meanwhile, and the time;
* `Scenario.run` — the reports of the steps, and how the process ended if it did.

A step that has not ended after an hour is given up, and the next one is taken.
-/

namespace Orchestra.Scenario

open Machine

/-- The parts of an ensemble, as a script names them. -/
structure AssemblySpec where
  bus : Option String
  /-- The types, or why they could not be put together. -/
  types : Except Refusal TypeCatalogue
  config : Config
  modules : List String
  erased : List String
  listeners : List String

/-- One step of a scenario. -/
inductive Step where
  | act (a : Action)
  | build (name : String) (spec : AssemblySpec)
  | launch (name : String)
  | mustLaunch (name : String)
  | shutdown (name : String)
  /-- Serves until a signal comes or a shutdown is requested; `signal` and `cancelAfter` happen
  from outside, so many milliseconds after the call. -/
  | serve (name : String) (signal : Option (Signal × Nat)) (cancelAfter : Option Nat)
  | snapshot (name : String)
  | workers (name : String)
  | info (name : String)
  | cancel (name : String)
  | drop (name : String)

/-- Goes on with the ensemble of a name, if there is one. -/
def withEnsemble (name : String) (f : Ensemble → Program app Outcome) : Program app Outcome := do
  match ← .ask (.stored name) with
  | some e => f e
  | none => reply (.text "no orchestrator")

/-- The reply to a launch. -/
def launchReply : Except LaunchFailure LaunchSummary → Reply
  | .ok r => .launched r
  | .error e => .launchFailed e

/-- Builds an ensemble and stores it under a name. -/
def buildStep (s : Setting) (name : String) (spec : AssemblySpec) : Program app Outcome := do
  match spec.types with
  | .error e => reply (.refused e)
  | .ok types =>
    let parts : Blueprint := { config := spec.config, types := types }
    let parts := (parts.addModules (spec.modules.map s.find)).addModules (spec.erased.map s.find)
    let parts := parts.addListeners (spec.listeners.map s.find)
    match ← parts.build s.cast (s.bus spec.bus) with
    | .error e => reply (.launchFailed e)
    | .ok e =>
      .ask (.keep name e)
      reply (.order (e.modules.map s.cast.name))

/-- What is told of an ensemble. -/
def infoStep (s : Setting) (e : Ensemble) : Program app Outcome := do
  let names := e.modules.map s.cast.name
  let listeners ← Bus.size e.bus
  let requested ← .ask (.isCancelled e.request)
  reply (.info ⟨names, e.config, listeners, requested, Ensemble.text names e.launched⟩)

/-- The program of a step. -/
def doStep (s : Setting) : Step → Program app Outcome
  | .act a => do
    match ← doAction s { actor := "" } a with
    | .ok r => reply r
    | .error e => reply (.hookFailed e)
  | .build name spec => buildStep s name spec
  | .launch name => withEnsemble name fun e => do
    reply (launchReply (← e.launch s.cast name).1)
  | .mustLaunch name => withEnsemble name fun e => do
    reply (launchReply (← e.mustLaunch s.cast name).1)
  | .shutdown name => withEnsemble name fun e => do
    reply (.shutDown (← e.shutdown s.cast name).1)
  | .serve name _ _ => withEnsemble name fun e => do
    match (← e.serve s.cast name).1 with
    | .ok r => reply (.shutDown r)
    | .error failure => reply (.launchFailed failure)
  | .snapshot name => withEnsemble name fun e => do
    reply (.snapshot (← Ensemble.snapshot s.cast e.slots))
  | .workers name => withEnsemble name fun e => do
    reply (.names (← .ask (.crewNames e.crew)))
  | .info name => withEnsemble name (infoStep s)
  | .cancel name => withEnsemble name fun e => do
    .ask (.cancel e.request)
    reply .nothing
  | .drop name => do
    reply (.flag (← .ask (.forget name)))

/-- What came of a step. -/
structure Report where
  reply : Reply
  log : List Entry
  /-- The time at the end of the step, in milliseconds. -/
  time : Nat
  records : List Record

/-- The longest that a step may take. -/
def stepLimit : Duration := .ofSeconds 3600

/-- What happens from outside during a step. -/
def alarmsOf (state : State app) : Step → List Alarm
  | .serve name signal cancelAfter =>
    let signals := (signal.map fun g =>
      ({ due := state.now + g.2, stamp := state.stamp, what := .signal g.1 } : Alarm)).toList
    let cancels := (do
      let millis ← cancelAfter
      let e ← state.ensembles.lookup name
      return ({ due := state.now + millis, stamp := state.stamp, what := .cancel e.request }
        : Alarm)).toList
    signals ++ cancels
  | _ => []

/-- Takes a step. -/
def takeStep (s : Setting) (state : State app) (step : Step) : State app :=
  let alarms := alarmsOf state step
  let before : State app :=
    { state with
      memory := ({ state.memory with log := [], reply := none } : Memory)
      records := []
      alarms := alarms
      stamp := state.stamp + alarms.length }
  before.perform s.world (doStep s step) stepLimit

/-- The report of a step, from the state at its end. -/
def reportOf (state : State app) : Report :=
  let m : Memory := state.memory
  ⟨m.reply.getD .hung, m.log, state.now, state.records⟩

/-- The reports of the steps that were completed, and how the process ended if it did. -/
def runSteps (s : Setting) : State app → List Step → List Report × Option (Nat × String)
  | _, [] => ([], none)
  | state, step :: rest =>
    let state := takeStep s state step
    match state.exited with
    | some e => ([], some (e.code, e.complaint))
    | none =>
      let (reports, e) := runSteps s state rest
      (reportOf state :: reports, e)

/-- Takes all steps from the beginning. -/
def run (s : Setting) (steps : List Step) : List Report × Option (Nat × String) :=
  runSteps s (State.start s.buses.length ({} : Memory)) steps

end Orchestra.Scenario
