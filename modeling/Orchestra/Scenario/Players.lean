import Orchestra.Publishing
import Orchestra.Scenario.Script

/-!
# The players of a scenario

* `ListenerSpec`, `ModuleSpec`, `Player` — scripted listeners and modules; a player's position is
  its identity as a listener;
* `Shape` — the events an application adds: two with a fixed key, and those that are scripted;
* `BusSpec` — a bus and the events it knows;
* `Setting` — players and buses; `Setting.cast` is what is fixed about them.
-/

namespace Orchestra.Scenario

/-! ### Listener types -/

namespace TypeName

def alpha : ListenerType := ⟨"oracle_driver::world::Alpha"⟩
def beta : ListenerType := ⟨"oracle_driver::world::Beta"⟩
def gamma : ListenerType := ⟨"oracle_driver::world::Gamma"⟩
def plain : ListenerType := ⟨"oracle_driver::world::Plain"⟩
def scripted : ListenerType := ⟨"oracle_driver::world::ScriptedModule"⟩
def minimal : ListenerType := ⟨"oracle_driver::world::MinimalModule"⟩
def log : ListenerType := ⟨"modvisor::listeners::log::LogListener"⟩

/-- The type that a script calls by a short name. -/
def ofShort? : String → Option ListenerType
  | "alpha" => some alpha
  | "beta" => some beta
  | "gamma" => some gamma
  | "plain" => some plain
  | "log" => some log
  | "module" => some scripted
  | "minimal" => some minimal
  | _ => none

end TypeName

/-! ### Players -/

/-- A scripted listener. -/
structure ListenerSpec where
  id : String
  type : ListenerType
  name : Option String
  rules : List Rule
  prepare : List Action
  posesAs : Option ListenerType

/-- A scripted module; a minimal one only keeps its flags. -/
structure ModuleSpec where
  id : String
  kind : Kind
  name : Option String
  identity : Identity
  hooks : List (Phase × List Action)
  rules : List Rule
  prepare : List Action
  minimal : Bool

/-- Somebody who can listen to a bus. -/
inductive Player where
  | listener (spec : ListenerSpec)
  | module (spec : ModuleSpec)

namespace Player

/-- The name by which scripts refer to a player. -/
def id : Player → String
  | listener s => s.id
  | module s => s.id

/-- The name that a player gives in reports: a plain listener goes by its type. -/
def name : Player → String
  | listener s =>
    if s.type = TypeName.plain then TypeName.plain.name
    else if s.type = TypeName.log then "log"
    else s.name.getD s.id
  | module s => s.name.getD s.id

/-- The listener type that a player reports.  Only a listener with a script may pose as another. -/
def type : Player → ListenerType
  | listener s =>
    if s.type = TypeName.plain ∨ s.type = TypeName.log then s.type else s.posesAs.getD s.type
  | module s => if s.minimal then TypeName.minimal else TypeName.scripted

/-- A module's kind. -/
def kind : Player → Kind
  | listener _ => default
  | module s => s.kind

/-- A module's identity. -/
def identity : Player → Identity
  | listener _ => default
  | module s => s.identity

end Player

/-! ### Events -/

/-- The constructor of a scripted event. -/
structure ScriptedConstructor where
  takes : List ArgType
  key : Option String
  priority : Priority
  reject : Option String
  deriving Repr, Inhabited

namespace Shape

/-- The event that carries a number. -/
def ping (n : Nat) : Event := .app ⟨"ping", ⟨"test.ping"⟩, .intermediate, [.int (Int.ofNat n)]⟩

/-- The event that carries a text. -/
def greeting (text : String) : Event :=
  .app ⟨"greeting", ⟨"test.greeting"⟩, .intermediate, [.text text]⟩

/-- Reads a number. -/
def makePing : Constructor := fun as => do
  return ping (← as.copied ⟨"test.ping"⟩ .u32 0)

/-- Reads a text. -/
def makeGreeting : Constructor := fun as => do
  return greeting (← as.copied ⟨"test.greeting"⟩ .string 0)

/-- A scripted constructor, bound to a key: it reads its arguments, and then builds its event or
rejects them. -/
def makeScripted (bound : EventKey) (c : ScriptedConstructor) : Constructor :=
  let key : EventKey := (c.key.map EventKey.mk).getD bound
  Constructor.ofShape key c.takes fun values =>
    match c.reject with
    | some reason => .error (.construction key reason)
    | none => .ok (.app ⟨"scripted", key, c.priority, values.map Argument.datum⟩)

/-- The events with a fixed key, by the names of their shapes. -/
def named? : String → Option (EventKey × Constructor)
  | "phase_completed" => some (Event.phaseCompletedKey, Constructor.phaseCompleted)
  | "module_faulted" => some (Event.moduleFaultedKey, Constructor.moduleFaulted)
  | "shutdown_requested" => some (Event.shutdownRequestedKey, Constructor.shutdownRequested)
  | "ping" => some (⟨"test.ping"⟩, makePing)
  | "greeting" => some (⟨"test.greeting"⟩, makeGreeting)
  | _ => none

end Shape

/-- A bus: the events it knows, and how long a listener may take. -/
structure BusSpec where
  name : String
  catalogue : EventCatalogue
  listenerTimeout : Duration

/-- Binds events one after another; what is refused is left out. -/
def bindAll (c : EventCatalogue) : List (EventKey × Constructor) → EventCatalogue
  | [] => c
  | (k, make) :: rest =>
    match c.add k make with
    | .ok c' => bindAll c' rest
    | .error _ => bindAll c rest

/-! ### The setting -/

/-- Players and buses. -/
structure Setting where
  buses : List BusSpec
  players : List Player

namespace Setting

/-- The player at a position. -/
def player? (s : Setting) (l : ListenerId) : Option Player := s.players[l]?

/-- The position of the player that a script refers to; beyond the last for nobody. -/
def find (s : Setting) (id : String) : ListenerId :=
  s.players.findIdx fun p => p.id = id

/-- The bus that a script refers to; the first if it names none. -/
def bus (s : Setting) : Option String → BusId
  | none => 0
  | some name => s.buses.findIdx fun b => b.name = name

/-- What is fixed about the players and buses. -/
def cast (s : Setting) : Cast where
  name l := ((s.player? l).map Player.name).getD ""
  type l := ((s.player? l).map Player.type).getD default
  kind l := ((s.player? l).map Player.kind).getD default
  identity l := ((s.player? l).map Player.identity).getD default
  catalogue b := ((s.buses[b]?).map BusSpec.catalogue).getD .empty
  listenerLimit b := (s.buses[b]?).bind fun b => b.listenerTimeout.limit?

end Setting

end Orchestra.Scenario
