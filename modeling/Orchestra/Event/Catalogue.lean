import Orchestra.Event.Basic
import Orchestra.Sort

/-!
# The catalogue of events

An `EventCatalogue` binds keys to constructors, which build events from positional arguments.

* `EventCatalogue.add` — a key is bound once and for all; the undefined key is never bound;
* `EventCatalogue.eventFor` — builds the event of a key, and insists that the event has that key;
* `Constructor.phaseCompleted`, `Constructor.moduleFaulted`, `Constructor.shutdownRequested` —
  the lifecycle events, which read their fields in order;
* `EventCatalogue.lifecycle` — the catalogue of these three.
-/

namespace Orchestra

/-- A way to build an event from positional arguments. -/
abbrev Constructor := Arguments → Except DispatchFailure Event

namespace Constructor

/-- Reads a phase and a number of modules. -/
def phaseCompleted : Constructor := fun as => do
  let phase ← as.copied Event.phaseCompletedKey .phase 0
  let modules ← as.copied Event.phaseCompletedKey .usize 1
  return .phaseCompleted phase modules

/-- Reads a module's name, a phase, a reason and whether the launch was aborted. -/
def moduleFaulted : Constructor := fun as => do
  let module ← as.copied Event.moduleFaultedKey .str 0
  let phase ← as.copied Event.moduleFaultedKey .phase 1
  let reason ← as.copied Event.moduleFaultedKey .string 2
  let escalated ← as.copied Event.moduleFaultedKey .bool 3
  return .moduleFaulted module phase reason escalated

/-- Reads a reason. -/
def shutdownRequested : Constructor := fun as => do
  let reason ← as.copied Event.shutdownRequestedKey .sharedStr 0
  return .shutdownRequested reason

/-- Reads one argument of each type in turn and hands them to `build`. -/
def ofShape (key : EventKey) (types : List ArgType)
    (build : List Argument → Except DispatchFailure Event) : Constructor := fun as =>
  match as.readFrom key 0 types with
  | .error e => .error e
  | .ok values => build values

end Constructor

/-- Keys and their constructors, in the order in which they were bound. -/
structure EventCatalogue where
  entries : List (EventKey × Constructor)

namespace EventCatalogue

/-- The catalogue without any event. -/
def empty : EventCatalogue := ⟨[]⟩

/-- The constructor bound to a key. -/
def find? (c : EventCatalogue) (k : EventKey) : Option Constructor := c.entries.lookup k

/-- Whether a key is bound. -/
def contains (c : EventCatalogue) (k : EventKey) : Bool := (c.find? k).isSome

/-- Binds a key, unless it is undefined or bound already. -/
def add (c : EventCatalogue) (k : EventKey) (make : Constructor) :
    Except Refusal EventCatalogue :=
  if k.namesNothing then .error .undefinedKey
  else if c.contains k then .error (.duplicateKey k)
  else .ok ⟨c.entries ++ [(k, make)]⟩

/-- How many keys are bound. -/
def size (c : EventCatalogue) : Nat := c.entries.length

/-- Whether no key is bound. -/
def isEmpty (c : EventCatalogue) : Bool := c.entries.isEmpty

/-- The bound keys in the order of their names. -/
def keys (c : EventCatalogue) : List EventKey :=
  sortBy (fun a b => a.name ≤ b.name) (c.entries.map Prod.fst)

/-- The event of a key, built from arguments. -/
def eventFor (c : EventCatalogue) (k : EventKey) (as : Arguments) :
    Except DispatchFailure Event :=
  if k.namesNothing then .error .undefinedKey
  else match c.find? k with
    | none => .error (.unknownKey k)
    | some make => match make as with
      | .error e => .error e
      | .ok event =>
        if event.key = k then .ok event
        else .error (.construction k s!"constructor produced an event keyed `{event.key.text}`")

/-- The catalogue of the lifecycle events. -/
def lifecycle : EventCatalogue :=
  ⟨[(Event.phaseCompletedKey, Constructor.phaseCompleted),
    (Event.moduleFaultedKey, Constructor.moduleFaulted),
    (Event.shutdownRequestedKey, Constructor.shutdownRequested)]⟩

/-- The catalogue as messages show it: by its keys. -/
def text (c : EventCatalogue) : String :=
  let shown := c.keys.map fun k => "EventKey(" ++ Text.quoted k.name ++ ")"
  "EventRegistry \x7b keys: [" ++ ", ".intercalate shown ++ "] \x7d"

end EventCatalogue

end Orchestra
