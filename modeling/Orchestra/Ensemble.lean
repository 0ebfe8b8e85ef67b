import Orchestra.Settings
import Orchestra.Targets
import Orchestra.Report

/-!
# Ensembles

An `Ensemble` is a set of modules that are launched and shut down together.

* `Kit` — what a module is given to work with: its bus, its tokens and its crew;
* `Slot` — one module of an ensemble and how far it has come;
* `Ensemble` — the slots in starting order, with the settings and tokens that they share.
-/

namespace Orchestra

/-- A bus. -/
abbrev BusId := Nat

/-- A cancellation token. -/
abbrev TokenId := Nat

/-- The workers of one ensemble. -/
abbrev CrewId := Nat

/-- What a module is given to work with. -/
structure Kit where
  bus : BusId
  name : String
  kind : Kind
  identity : Identity
  /-- Cancelled when the modules are shut down, or by the module itself. -/
  token : TokenId
  /-- Cancelled to ask for a shutdown. -/
  request : TokenId
  crew : CrewId
  deriving DecidableEq, Repr, Inhabited

/-- A kit as messages show it. -/
def Kit.text (c : Kit) (cancelled : Bool) : String :=
  "ModuleContext \x7b name: " ++ Text.quoted c.name ++ ", kind: ModuleKind("
    ++ Text.quoted c.kind.name ++ "), id: " ++ c.identity.text ++ ", cancelled: "
    ++ toString cancelled ++ " \x7d"

/-- One module of an ensemble. -/
structure Slot where
  module : ListenerId
  info : TypeInfo
  kit : Kit
  stage : Stage := .unstarted
  /-- Whether the module takes part in the phases of the launch. -/
  active : Bool := true
  deriving DecidableEq, Repr, Inhabited

/-- Whether a slot's module is to be shut down: it has been initialized, and not shut down. -/
def Slot.isDue (s : Slot) : Bool := .initialized ≤ s.stage && s.stage ≠ .shutdown

/-- A set of modules that are launched and shut down together. -/
structure Ensemble where
  config : Config
  bus : BusId
  types : TypeCatalogue
  /-- The modules in starting order. -/
  slots : List Slot
  /-- Listeners that are no modules. -/
  listeners : List ListenerId
  /-- The parent of every module's token. -/
  runtime : TokenId
  /-- Cancelled to ask for a shutdown. -/
  request : TokenId
  crew : CrewId
  launched : Bool := false
  deriving DecidableEq, Repr, Inhabited

namespace Ensemble

/-- The modules in starting order. -/
def modules (e : Ensemble) : List ListenerId := e.slots.map Slot.module

/-- The first required kind of which the ensemble has no module. -/
def missingKind? (e : Ensemble) : Option Kind :=
  Kind.required.find? fun k => !(e.slots.any fun s => s.info.kind = k)

/-- The positions of the modules in the order in which they are shut down. -/
def shutdownPositions (e : Ensemble) : List Nat :=
  match e.config.closingOrder with
  | .startup => List.range e.slots.length
  | .reverse => (List.range e.slots.length).reverse

/-- An ensemble as messages show it. -/
def text (names : List String) (launched : Bool) : String :=
  "Orchestrator \x7b modules: " ++ Text.quotedList names ++ ", launched: " ++ toString launched
    ++ " \x7d"

end Ensemble

end Orchestra
