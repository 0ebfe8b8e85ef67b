/-!
# Event keys and priorities

* `EventKey` — the symbolic name under which an event is registered and dispatched; the empty
  name is the undefined key, which no event may be registered under;
* `Priority` — how urgent an event is; the bus hands it to listeners and orders nothing by it.
-/

namespace Orchestra

/-- The symbolic name of an event. -/
structure EventKey where
  name : String
  deriving DecidableEq, Repr, Inhabited

namespace EventKey

/-- The key of no event. -/
def undefined : EventKey := ⟨""⟩

/-- Whether a key is the undefined one. -/
def namesNothing (k : EventKey) : Bool := k.name.isEmpty

/-- The key's name as messages show it. -/
def text (k : EventKey) : String := if k.namesNothing then "<undefined>" else k.name

instance : Ord EventKey := ⟨fun a b => compare a.name b.name⟩

theorem namesNothing_iff {k : EventKey} : k.namesNothing ↔ k = undefined := by
  cases k with
  | mk name => simp [namesNothing, undefined]

end EventKey

/-- How urgent an event is, most urgent first. -/
inductive Priority where
  | high
  | intermediate
  | low
  deriving DecidableEq, Repr

namespace Priority

instance : Inhabited Priority := ⟨intermediate⟩

/-- The short name used in records. -/
def label : Priority → String
  | high => "high"
  | intermediate => "intermediate"
  | low => "low"

/-- The place of a priority, the most urgent first. -/
def rank : Priority → Nat
  | high => 0
  | intermediate => 1
  | low => 2

instance : Ord Priority := ⟨fun a b => compare a.rank b.rank⟩

end Priority

end Orchestra
