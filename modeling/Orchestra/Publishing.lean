import Orchestra.Program

/-!
# The event bus

A bus hands events to its listeners, one after another in the order in which they were
registered, on the task that publishes.

* `register`, `unregister` — change the listeners; each listener is there at most once;
* `publish` — delivers an event to all listeners, or to those of the target types only.  A task
  that is already delivering on this bus uses the listeners of that delivery and waits for nothing;
* `dispatch` — builds the event of a key first, and publishes nothing if that fails;
* `deliver` — the delivery itself: a listener that panics or outlasts its limit is reported, and
  the next one is called all the same.
-/

namespace Orchestra.Bus

variable {A : Application}

/-- Adds a listener; answers whether it was not there before. -/
def register (cast : Cast) (bus : BusId) (l : ListenerId) : Program A Bool := do
  let changed ← .ask (.edit bus (.add l))
  if changed then
    .ask (.record ⟨.debug, Origin.bus, "listener registered", [.plain "listener" (cast.name l)]⟩)
  return changed

/-- Removes a listener; answers whether it was there. -/
def unregister (cast : Cast) (bus : BusId) (l : ListenerId) : Program A Bool := do
  let changed ← .ask (.edit bus (.remove l))
  if changed then
    .ask (.record ⟨.debug, Origin.bus, "listener unregistered", [.plain "listener" (cast.name l)]⟩)
  return changed

/-- The listeners as this task sees them: those of a delivery it is part of, or else those of the
moment. -/
def visible (bus : BusId) : Program A (List ListenerId) := do
  match ← .ask (.enclosing bus) with
  | some set => return set
  | none => .ask (.listeners bus)

/-- Whether a listener is registered. -/
def contains (bus : BusId) (l : ListenerId) : Program A Bool := do
  return (← visible bus).contains l

/-- How many listeners are registered. -/
def size (bus : BusId) : Program A Nat := do
  return (← visible bus).length

/-- Whether nobody is registered. -/
def isEmpty (bus : BusId) : Program A Bool := do
  return (← visible bus).isEmpty

/-- Whether an event for these targets is meant for a listener; without targets it is meant for
everybody. -/
def isMeant (cast : Cast) (targets : Option TargetSet) (l : ListenerId) : Bool :=
  match targets with
  | none => true
  | some ts => ts.matchesType (cast.type l)

/-- The record of a listener that failed. -/
def failureRecord (cast : Cast) (event : Event) (l : ListenerId) (e : HookFailure) : Record :=
  ⟨.warn, Origin.bus, "listener failed to handle event: " ++ e.message,
    [.plain "listener" (cast.name l), .shown "event" event.key.text, .plain "label" e.label]⟩

/-- Calls listeners one after another and counts what becomes of the event. -/
def deliverTo (cast : Cast) (bus : BusId) (event : Event) :
    List ListenerId → Delivery → Program A Delivery
  | [], d => return d
  | l :: rest, d => do
    match ← .ask (.call (.onEvent l event) (cast.listenerLimit bus)) with
    | .ok () => deliverTo cast bus event rest d.handled
    | .error e =>
      .ask (.record (failureRecord cast event l e))
      deliverTo cast bus event rest (d.failed (cast.name l) e)

/-- Delivers an event to those of the listeners that it is meant for. -/
def deliver (cast : Cast) (bus : BusId) (set : List ListenerId) (event : Event)
    (targets : Option TargetSet) : Program A Delivery :=
  deliverTo cast bus event (set.filter (isMeant cast targets)) {}

/-- Notes that a dedicated event found nobody. -/
def noteUnmatched (event : Event) (targets : Option TargetSet) (d : Delivery) :
    Program A Unit :=
  match targets with
  | some ts =>
    if d.attempts = 0 then
      .ask (.record ⟨.debug, Origin.bus, "no listener matched dedicated delivery",
        [.shown "event" event.key.text, .shown "targets" (Text.quotedList ts.names)]⟩)
    else return ()
  | none => return ()

/-- Delivers an event, to all listeners or to those of the target types. -/
def publish (cast : Cast) (bus : BusId) (event : Event) (targets : Option TargetSet) :
    Program A Delivery := do
  match ← .ask (.enclosing bus) with
  | some set => deliver cast bus set event targets
  | none =>
    let set ← .ask (.beginDelivery bus)
    let d ← deliver cast bus set event targets
    .ask .endDelivery
    noteUnmatched event targets d
    return d

/-- Delivers an event to all listeners. -/
def emit (cast : Cast) (bus : BusId) (event : Event) : Program A Delivery :=
  publish cast bus event none

/-- Builds the event of a key and delivers it. -/
def dispatch (cast : Cast) (bus : BusId) (key : EventKey) (as : Arguments)
    (targets : Option TargetSet) : Program A (Except DispatchFailure Delivery) := do
  match (cast.catalogue bus).eventFor key as with
  | .error e => return .error e
  | .ok event => return .ok (← publish cast bus event targets)

end Orchestra.Bus
