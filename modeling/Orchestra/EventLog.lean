import Orchestra.Program

/-!
# The listener that logs events

`EventLog.recordOf` is the record of an event: lifecycle events have records of their own, and
any other event is recorded by its key and priority.
-/

namespace Orchestra.EventLog

/-- The name of the listener. -/
def name : String := "log"

/-- The type of the listener. -/
def type : ListenerType := ⟨"modvisor::listeners::log::LogListener"⟩

/-- The record of an event. -/
def recordOf : Event → Record
  | .phaseCompleted phase modules =>
    ⟨.info, Origin.eventLog, "phase completed",
      [.shown "phase" phase.label, .number "modules" modules]⟩
  | .moduleFaulted module phase reason escalated =>
    let fields := [.plain "module" module, .shown "phase" phase.label, .shown "reason" reason]
    if escalated then ⟨.error, Origin.eventLog, "module faulted, launch aborted", fields⟩
    else ⟨.warn, Origin.eventLog, "module faulted", fields⟩
  | .shutdownRequested reason =>
    ⟨.info, Origin.eventLog, "shutdown requested", [.shown "reason" reason]⟩
  | .app e =>
    ⟨.debug, Origin.eventLog, "event",
      [.shown "key" e.key.text, .plain "priority" e.priority.label]⟩

/-- What the listener does with an event. -/
def onEvent {A : Application} (event : Event) : Program A Outcome := do
  .ask (.record (recordOf event))
  return .ok ()

end Orchestra.EventLog
