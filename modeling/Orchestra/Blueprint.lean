import Orchestra.Publishing
import Orchestra.StartOrder

/-!
# Building an ensemble

A `Blueprint` collects modules and listeners.  Building it orders the modules, gives each a kit,
and registers everything on a bus.

* `Blueprint.addModules`, `Blueprint.addListeners` — add modules and listeners; one that is there
  already is not added again;
* `Blueprint.build` — the ensemble, or the reason why the modules cannot be ordered, in which case
  the bus has not been touched.
-/

namespace Orchestra

variable {A : Application}

/-- The parts of an ensemble. -/
structure Blueprint where
  config : Config := {}
  types : TypeCatalogue := .core
  modules : List ListenerId := []
  listeners : List ListenerId := []

/-- Adds an item to a list unless it is there already. -/
def addOnce (xs : List ListenerId) (x : ListenerId) : List ListenerId :=
  if x ∈ xs then xs else xs ++ [x]

namespace Blueprint

/-- Adds modules that are not there yet. -/
def addModules (a : Blueprint) (ms : List ListenerId) : Blueprint :=
  { a with modules := ms.foldl addOnce a.modules }

/-- Adds listeners that are not there yet. -/
def addListeners (a : Blueprint) (ls : List ListenerId) : Blueprint :=
  { a with listeners := ls.foldl addOnce a.listeners }

/-- Gives each module its kit and registers it, in order; a module of an unknown kind ends that. -/
def fillSlots (cast : Cast) (bus : BusId) (types : TypeCatalogue) (runtime request : TokenId)
    (crew : CrewId) : List ListenerId → List Slot → Program A (Except Refusal (List Slot))
  | [], slots => return .ok slots
  | m :: rest, slots =>
    match types.find? (cast.kind m) with
    | none => return .error (.unknownKind (cast.kind m).name)
    | some info => do
      let token ← .ask (.newToken (some runtime))
      let kit : Kit :=
        ⟨bus, cast.name m, cast.kind m, cast.identity m, token, request, crew⟩
      let _ ← Bus.register cast bus m
      .ask (.record ⟨.debug, Origin.builder, "module registered",
        [.plain "module" (cast.name m), .shown "kind" (cast.kind m).name,
          .number "weight" info.weight]⟩)
      fillSlots cast bus types runtime request crew rest
        (slots ++ [{ module := m, info := info, kit := kit }])

/-- Registers listeners one after another. -/
def registerAll (cast : Cast) (bus : BusId) : List ListenerId → Program A Unit
  | [] => return ()
  | l :: rest => do
    let _ ← Bus.register cast bus l
    registerAll cast bus rest

/-- The modules in starting order, or why there is no such order. -/
def ordered (cast : Cast) (a : Blueprint) : Except Refusal (List ListenerId) :=
  match startOrder (a.modules.map cast.kind) a.types with
  | .error e => .error e
  | .ok positions => .ok (positions.filterMap fun i => a.modules[i]?)

/-- Builds the ensemble on a bus. -/
def build (cast : Cast) (bus : BusId) (a : Blueprint) :
    Program A (Except LaunchFailure Ensemble) := do
  match a.ordered cast with
  | .error e => return .error (.ordering e)
  | .ok modules =>
    let runtime ← .ask (.newToken none)
    let request ← .ask (.newToken none)
    let crew ← .ask .newCrew
    match ← fillSlots cast bus a.types runtime request crew modules [] with
    | .error e => return .error (.ordering e)
    | .ok slots =>
      registerAll cast bus a.listeners
      return .ok { config := a.config, bus, types := a.types, slots, listeners := a.listeners,
                   runtime, request, crew }

end Blueprint

end Orchestra
