import Orchestra.Console.Parts
import Orchestra.Machine.Schedule
import Orchestra.Record.Filter

/-!
# A small process: a session

* `session` — builds the ensemble, serves until it is asked to end, and tells how each module ended;
* `Session` — what a session leaves: its exit status, its records, and its complaint if it failed;
* `run` — a session in given surroundings, with the records that a filter lets through.
-/

namespace Orchestra.Console

open Machine

/-- The settings of the process. -/
def config : Config :=
  { hookTimeout := .ofSeconds 10, grace := .ofSeconds 3, closingOrder := .reverse }

/-- The parts in the order in which they are put together. -/
def parts : Blueprint :=
  ({ config := config : Blueprint }.addListeners [Part.log.id]).addModules
    [Part.gateway.id, Part.database.id, Part.console.id, Part.credentials.id]

/-- The name under which the ensemble is stored. -/
def ensembleName : String := "assembly"

/-- Tells how a module ended. -/
def tellFinal : List Snapshot → Program app Unit
  | [] => return ()
  | s :: rest => do
    say .info "final state"
      [.plain "module" s.name, .shown "stage" s.stage.label,
        .shown "healthy" (toString s.healthy)]
    tellFinal rest

/-- Ends the process with a failure, all of which is told. -/
def giveUp (failure : LaunchFailure) : Program app Outcome := do
  let _ ← .ask (.exit 1 ("Error: " ++ failure.inFull ++ "\n"))
  return .ok ()

/-- The main program. -/
def session : Program app Outcome := do
  match ← parts.build cast bus with
  | .error failure => giveUp failure
  | .ok e =>
    .ask (.keep ensembleName e)
    say .info "modules assembled"
      [.shown "order" (Text.quotedList (e.modules.map cast.name))]
    let (result, e) ← e.serve cast ensembleName
    match result with
    | .error failure => giveUp failure
    | .ok report =>
      tellFinal (← Ensemble.snapshot cast e.slots)
      if !report.stuckWorkers.isEmpty then
        say .warn "some workers did not stop in time"
          [.shown "stuck" (Text.quotedList report.stuckWorkers)]
      memorize (.conclude 0)
      return .ok ()

/-- What a session leaves. -/
structure Session where
  status : Nat
  records : List Record
  complaint : String
  deriving DecidableEq, Repr, Inhabited

/-- The moment at which a signal comes: after everything that was typed. -/
def signalDue : Nat := 2

/-- A session in given surroundings. -/
def run (around : Surroundings) (filter : Filter) : Session :=
  let start : State app := State.start 1 ({} : Memory)
  let alarms := around.signal.toList.map fun g =>
    ({ due := signalDue, stamp := 0, what := .signal g } : Alarm)
  let final := { start with alarms := alarms, stamp := 1 }.perform (world around) session
    sessionLimit
  let m : Memory := final.memory
  let exit := final.exited.getD (.status (m.status.getD 1) "")
  ⟨exit.code, final.records.filter filter.shows, exit.complaint⟩

end Orchestra.Console
