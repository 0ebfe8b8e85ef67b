import Orchestra.Argument

/-!
# Events

An event has a key, a priority and fields.  Three shapes are the orchestrator's own; every other
shape belongs to an application.

* `Event.phaseCompleted`, `Event.moduleFaulted`, `Event.shutdownRequested` — the lifecycle events;
* `AppEvent` — an event of an application: its shape, key, priority and fields;
* `Event.fieldArguments` — the fields of a lifecycle event as the arguments that build it.
-/

namespace Orchestra

/-- An event of an application. -/
structure AppEvent where
  shape : String
  key : EventKey
  priority : Priority
  fields : List Datum
  deriving Repr, Inhabited

/-- A value that the bus delivers. -/
inductive Event where
  /-- Every active module has been driven through a phase. -/
  | phaseCompleted (phase : Phase) (modules : Nat)
  /-- A module's hook failed; `escalated` tells whether that aborted the launch. -/
  | moduleFaulted (module : String) (phase : Phase) (reason : String) (escalated : Bool)
  /-- The modules are about to be shut down. -/
  | shutdownRequested (reason : String)
  | app (event : AppEvent)
  deriving Repr, Inhabited

namespace Event

def phaseCompletedKey : EventKey := ⟨"lifecycle.phase_completed"⟩
def moduleFaultedKey : EventKey := ⟨"lifecycle.module_faulted"⟩
def shutdownRequestedKey : EventKey := ⟨"lifecycle.shutdown_requested"⟩

/-- The key under which an event is dispatched. -/
def key : Event → EventKey
  | phaseCompleted .. => phaseCompletedKey
  | moduleFaulted .. => moduleFaultedKey
  | shutdownRequested _ => shutdownRequestedKey
  | app e => e.key

/-- How urgent an event is. -/
def priority : Event → Priority
  | phaseCompleted .. => .low
  | moduleFaulted .. => .high
  | shutdownRequested _ => .high
  | app e => e.priority

/-- The name of an event's shape. -/
def shape : Event → String
  | phaseCompleted .. => "phase_completed"
  | moduleFaulted .. => "module_faulted"
  | shutdownRequested _ => "shutdown_requested"
  | app e => e.shape

/-- The fields of an event as they are shown. -/
def fields : Event → List Datum
  | phaseCompleted phase modules => [.text phase.label, .int (Int.ofNat modules)]
  | moduleFaulted module phase reason escalated =>
    [.text module, .text phase.label, .text reason, .bool escalated]
  | shutdownRequested reason => [.text reason]
  | app e => e.fields

/-- The fields of a lifecycle event as positional arguments. -/
def fieldArguments : Event → List Argument
  | phaseCompleted phase modules => [⟨.phase, phase⟩, ⟨.usize, modules⟩]
  | moduleFaulted module phase reason escalated =>
    [⟨.str, module⟩, ⟨.phase, phase⟩, ⟨.string, reason⟩, ⟨.bool, escalated⟩]
  | shutdownRequested reason => [⟨.sharedStr, reason⟩]
  | app _ => []

end Event

end Orchestra
