import Orchestra.Text.Quoted

/-!
# Listeners and targets

* `ListenerId` — one listener; two handles of one listener are the same `ListenerId`;
* `ListenerType` — the type by which dedicated events find their listeners, known by its name;
* `TargetSet` — the types a dedicated event is meant for, each once.  The empty set matches nobody.
-/

namespace Orchestra

/-- A listener's identity. -/
abbrev ListenerId := Nat

/-- The type of a listener. -/
structure ListenerType where
  name : String
  deriving DecidableEq, Repr, Inhabited

/-- The listener types that a dedicated event is meant for. -/
structure TargetSet where
  types : List ListenerType
  deriving DecidableEq, Repr, Inhabited

namespace TargetSet

/-- The set of no types. -/
def empty : TargetSet := ⟨[]⟩

/-- The set with one more type; a type that is there already is not added again. -/
def insert (s : TargetSet) (t : ListenerType) : TargetSet :=
  if t ∈ s.types then s else ⟨s.types ++ [t]⟩

/-- The set of the types in a list. -/
def ofList (ts : List ListenerType) : TargetSet := ts.foldl insert empty

/-- Whether listeners of type `t` are meant. -/
def matchesType (s : TargetSet) (t : ListenerType) : Bool := s.types.contains t

/-- How many types are meant. -/
def size (s : TargetSet) : Nat := s.types.length

/-- Whether no type is meant. -/
def isEmpty (s : TargetSet) : Bool := s.types.isEmpty

/-- The names of the types, in the order in which they were added. -/
def names (s : TargetSet) : List String := s.types.map ListenerType.name

theorem mem_insert {s : TargetSet} {t u : ListenerType} :
    u ∈ (s.insert t).types ↔ u ∈ s.types ∨ u = t := by
  unfold insert
  split
  · constructor
    · exact Or.inl
    · rintro (h | rfl)
      · exact h
      · assumption
  · simp

end TargetSet

end Orchestra
