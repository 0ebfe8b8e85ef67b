import Orchestra.Program

/-!
# Scripts

A scenario scripts what its listeners, modules, workers and tasks do.

* `Action` — one thing that somebody does; `Action.name` is the name under which its result is
  noted;
* `Rule` — what a listener does on an event, by the event's key and by how many came before;
* `Reply` — the result of an action or of a step;
* `Entry` — what is noted in the scenario's log.
-/

namespace Orchestra.Scenario

/-- One thing that somebody does. -/
inductive Action where
  | note (text : String)
  | sleep (millis : Nat)
  | hang
  | panic (payload : Payload)
  /-- Fails; `name` tells the spelling that the script used. -/
  | fail (name : String) (failure : HookFailure)
  | register (bus : Option String) (listener : String)
  | unregister (bus : Option String) (listener : String)
  | contains (bus : Option String) (listener : String)
  | len (bus : Option String)
  | isEmpty (bus : Option String)
  | keys (bus : Option String)
  | dispatch (bus : Option String) (key : EventKey) (args : Arguments)
      (targets : Option TargetSet)
  | emit (bus : Option String) (event : Event) (targets : Option TargetSet)
  | targets (set : TargetSet) (listeners : List String)
  | spawn (id : String) (script : List Action)
  | join (id : String)
  | abort (id : String)
  | markRunning (b : Bool)
  | markHealthy (b : Bool)
  | askShutdown
  | kit
  | awaitCancel
  | cancelOwnToken
  | startWorker (label : String) (script : List Action)

/-- The name under which the result of an action is noted. -/
def Action.name : Action → String
  | note _ => "note"
  | sleep _ => "sleep"
  | hang => "hang"
  | panic _ => "panic"
  | fail name _ => name
  | register .. => "register"
  | unregister .. => "unregister"
  | contains .. => "contains"
  | len _ => "len"
  | isEmpty _ => "is_empty"
  | keys _ => "keys"
  | dispatch .. => "dispatch"
  | emit .. => "emit"
  | targets .. => "targets"
  | spawn .. => "spawn"
  | join _ => "join"
  | abort _ => "abort"
  | markRunning _ => "set_running"
  | markHealthy _ => "set_healthy"
  | askShutdown => "request_shutdown"
  | kit => "ctx"
  | awaitCancel => "await_cancel"
  | cancelOwnToken => "cancel_own_token"
  | startWorker .. => "spawn_worker"

/-- What a listener does on some of its events. -/
structure Rule where
  /-- The key of the events; none for all. -/
  key : Option String
  /-- Which of the listener's events, counted from one; none for all. -/
  nth : Option Nat
  script : List Action

/-- Whether a rule is for an event, the `n`-th of its listener. -/
def Rule.isFor (r : Rule) (event : Event) (n : Nat) : Bool :=
  (r.key.all fun k => event.key.name = k) && (r.nth.all fun m => n = m)

/-- What a module sees of its kit. -/
structure KitView where
  name : String
  kind : Kind
  identity : Identity
  cancelled : Bool
  shutdownRequested : Bool
  listeners : Nat
  text : String
  deriving Repr, Inhabited

/-- What is told of an ensemble. -/
structure EnsembleView where
  order : List String
  config : Config
  listeners : Nat
  shutdownRequested : Bool
  text : String
  deriving Repr, Inhabited

/-- The result of an action or of a step. -/
inductive Reply where
  | nothing
  | text (s : String)
  | flag (b : Bool)
  | count (n : Nat)
  | names (ss : List String)
  | event (e : Event)
  | delivery (d : Delivery)
  | dispatchFailed (e : DispatchFailure)
  | hookFailed (e : HookFailure)
  | refused (e : Refusal)
  | launchFailed (e : LaunchFailure)
  | targets (set : TargetSet) (matched : List Bool)
  | kit (view : KitView)
  | order (names : List String)
  | launched (r : LaunchSummary)
  | shutDown (r : ShutdownSummary)
  | snapshot (modules : List Snapshot)
  | info (view : EnsembleView)
  /-- The step was given up. -/
  | hung
  deriving Repr, Inhabited

/-- Whether a result is worth a note. -/
def Reply.isNothing : Reply → Bool
  | nothing => true
  | _ => false

/-- One note: who did what, and with what result. -/
structure Entry where
  actor : String
  what : String
  value : Reply
  deriving Repr, Inhabited

end Orchestra.Scenario
