import Orchestra.Crew
import Orchestra.Launch

/-!
# Shutting an ensemble down

* `Ensemble.shutdown` — runs the hooks that are due, announces the end of the phase, tells the
  workers to stop, waits for them, and takes modules and listeners off the bus.  Failures are
  collected and never end it;
* `Ensemble.mustLaunch` — a launch whose fatal failures end the process;
* `Ensemble.awaitEnd` — waits for a signal or a request, and for the request alone if the process
  cannot be told of signals;
* `Ensemble.serve` — launches, waits until it is asked to end, and shuts down.
-/

namespace Orchestra

variable {A : Application}

/-- What the shutdown hooks came to. -/
structure Closing where
  slots : List Slot
  ran : Nat
  failures : List Fault
  deriving DecidableEq, Repr, Inhabited

namespace Ensemble

/-- Runs the shutdown hooks that are due, at the given positions in turn. -/
def closeSlots (cast : Cast) (name : String) (e : Ensemble) :
    List Nat → Closing → Program A Closing
  | [], c => return c
  | i :: rest, c =>
    match c.slots[i]? with
    | none => closeSlots cast name e rest c
    | some s => do
      if !s.isDue then closeSlots cast name e rest c
      else
        let module := cast.name s.module
        .ask (.record ⟨.debug, Origin.orchestrator, "shutting down", [.plain "module" module]⟩)
        let outcome ← s.callHook .shutdown e.config.hookLimit?
        let slots := c.slots.set i { s with stage := .shutdown }
        keepSlots name e slots
        match outcome with
        | .ok () => closeSlots cast name e rest ⟨slots, c.ran + 1, c.failures⟩
        | .error failure =>
          .ask (.record (faultRecord .warn "shutdown hook failed" module .shutdown failure))
          closeSlots cast name e rest
            ⟨slots, c.ran + 1, c.failures ++ [⟨module, .shutdown, failure, false⟩]⟩

/-- Takes listeners off a bus one after another. -/
def unregisterAll (cast : Cast) (bus : BusId) : List ListenerId → Program A Unit
  | [] => return ()
  | l :: rest => do
    let _ ← Bus.unregister cast bus l
    unregisterAll cast bus rest

/-- Shuts an ensemble down; answers the report, and the ensemble as it is then. -/
def shutdown (cast : Cast) (name : String) (e : Ensemble) :
    Program A (ShutdownSummary × Ensemble) := do
  let c ← closeSlots cast name e e.shutdownPositions ⟨e.slots, 0, []⟩
  let e := { e with slots := c.slots }
  if 0 < c.ran then
    let _ ← Bus.emit cast e.bus (.phaseCompleted .shutdown c.ran)
  .ask (.cancel e.runtime)
  let stuck ← Crew.dissolve e.crew e.config.grace
  unregisterAll cast e.bus e.modules
  unregisterAll cast e.bus e.listeners
  .ask (.record ⟨.info, Origin.orchestrator, "shutdown complete",
    [.number "failures" c.failures.length, .number "stuck" stuck.length]⟩)
  return (⟨c.failures, stuck⟩, e)

/-- Launches an ensemble; a fatal failure ends the process with its message. -/
def mustLaunch (cast : Cast) (name : String) (e : Ensemble) :
    Program A (Except LaunchFailure LaunchSummary × Ensemble) := do
  let (result, e) ← launch cast name e
  match result with
  | .error failure =>
    if failure.endsProcess then
      let _ ← .ask (.exit 1 ("fatal: " ++ failure.message ++ "\n"))
    return (.error failure, e)
  | .ok report => return (.ok report, e)

/-- Waits for a signal or for a request to end; where the process cannot be told of signals, for a
request alone. -/
def awaitEnd (request : TokenId) : Program A Termination := do
  let cause ← .ask (.awaitTermination request)
  if let .unavailable error := cause then
    .ask (.record ⟨.warn, Origin.orchestrator,
      "signal handlers unavailable, waiting for a shutdown request: " ++ error, []⟩)
    .ask (.awaitCancel request)
  return cause

/-- Launches an ensemble, waits until it is asked to end, and shuts it down.  An ensemble whose
launch failed is shut down at once. -/
def serve (cast : Cast) (name : String) (e : Ensemble) :
    Program A (Except LaunchFailure ShutdownSummary × Ensemble) := do
  let (result, e) ← mustLaunch cast name e
  match result with
  | .error failure =>
    .ask (.record ⟨.error, Origin.orchestrator, "launch failed: " ++ failure.message,
      [.plain "label" failure.label]⟩)
    let (_, e) ← shutdown cast name e
    return (.error failure, e)
  | .ok _ =>
    let cause ← awaitEnd e.request
    .ask (.record ⟨.info, Origin.orchestrator, "shutdown requested",
      [.shown "reason" cause.reason]⟩)
    let _ ← Bus.emit cast e.bus (.shutdownRequested cause.reason)
    let (report, e) ← shutdown cast name e
    return (.ok report, e)

/-- The modules of slots at this moment, in the order of the slots. -/
def snapshot (cast : Cast) : List Slot → Program A (List Snapshot)
  | [] => return []
  | s :: rest => do
    let flags ← .ask (.flags s.module)
    let others ← snapshot cast rest
    return ⟨cast.name s.module, s.info.kind, s.info.title, s.kit.identity, s.stage, s.active,
      flags.running, flags.healthy⟩ :: others

end Ensemble

end Orchestra
