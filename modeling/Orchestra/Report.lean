import Orchestra.Failure
import Orchestra.Identity
import Orchestra.ModuleType

/-!
# Reports

* `Delivery` — what became of one event: how many listeners handled it, and which did not;
* `Fault` — a hook that failed without ending the sequence;
* `LaunchSummary`, `ShutdownSummary` — the outcome of a launch and of a shutdown;
* `Snapshot` — one module at one moment.
-/

namespace Orchestra

/-- A listener that failed to handle an event. -/
structure Mishap where
  listener : String
  failure : HookFailure
  deriving DecidableEq, Repr, Inhabited

/-- What became of one event. -/
structure Delivery where
  /-- How many listeners handled the event. -/
  delivered : Nat := 0
  /-- The listeners that did not, in the order in which they were called. -/
  failures : List Mishap := []
  deriving DecidableEq, Repr, Inhabited

namespace Delivery

/-- How many listeners the event was handed to. -/
def attempts (d : Delivery) : Nat := d.delivered + d.failures.length

/-- Whether no listener failed. -/
def allWell (d : Delivery) : Bool := d.failures.isEmpty

/-- One more listener handled the event. -/
def handled (d : Delivery) : Delivery := { d with delivered := d.delivered + 1 }

/-- One more listener failed. -/
def failed (d : Delivery) (listener : String) (failure : HookFailure) : Delivery :=
  { d with failures := d.failures ++ [⟨listener, failure⟩] }

end Delivery

/-- A hook that failed without ending the sequence. -/
structure Fault where
  module : String
  phase : Phase
  failure : HookFailure
  /-- Whether the module was left out of the remaining phases. -/
  skipped : Bool
  deriving DecidableEq, Repr, Inhabited

/-- The outcome of a launch that succeeded. -/
structure LaunchSummary where
  /-- The modules still active, in starting order. -/
  active : List String
  /-- The failures on the way, in order. -/
  faults : List Fault
  deriving DecidableEq, Repr, Inhabited

namespace LaunchSummary

/-- Whether nothing failed. -/
def allWell (r : LaunchSummary) : Bool := r.faults.isEmpty

/-- The faults that took a module out of the launch. -/
def skipped (r : LaunchSummary) : List Fault := r.faults.filter Fault.skipped

end LaunchSummary

/-- The outcome of a shutdown. -/
structure ShutdownSummary where
  /-- The hooks that failed, in order. -/
  failures : List Fault
  /-- The workers that were still running after the grace period, by name. -/
  stuckWorkers : List String
  deriving DecidableEq, Repr, Inhabited

/-- Whether nothing failed and nobody was left. -/
def ShutdownSummary.allWell (r : ShutdownSummary) : Bool :=
  r.failures.isEmpty && r.stuckWorkers.isEmpty

/-- One module at one moment. -/
structure Snapshot where
  name : String
  kind : Kind
  title : String
  identity : Identity
  stage : Stage
  active : Bool
  running : Bool
  healthy : Bool
  deriving DecidableEq, Repr, Inhabited

end Orchestra
