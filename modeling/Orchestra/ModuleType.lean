import Orchestra.Failure
import Orchestra.Sort

/-!
# Kinds of modules

Every module has a `Kind`; a `TypeCatalogue` says for each kind its title, whether it is mandatory,
its weight and the kinds it needs.

* `TypeInfo` — what the catalogue holds for one kind;
* `TypeCatalogue.add` — kinds and weights are unique, so an entry that repeats one is refused, and
  a repeated kind is reported before a repeated weight;
* `TypeCatalogue.byWeight` — the entries in the order of their weights, whatever order they were
  added in;
* `TypeCatalogue.core` — the five kinds a process starts from; `Kind.required` are those that
  every launch must have.
-/

namespace Orchestra

/-- The symbolic type of a module. -/
structure Kind where
  name : String
  deriving DecidableEq, Repr, Inhabited

namespace Kind

def credentials : Kind := ⟨"credentials"⟩
def console : Kind := ⟨"console"⟩
def database : Kind := ⟨"database"⟩
def io : Kind := ⟨"io"⟩
def gateway : Kind := ⟨"gateway"⟩

/-- The kinds that have a place of their own in every process. -/
def core : List Kind := [credentials, console, database, io, gateway]

/-- The kinds of which every launch needs a module, in the order in which they are looked for. -/
def required : List Kind := [credentials, console, gateway]

instance : Ord Kind := ⟨fun a b => compare a.name b.name⟩

end Kind

/-- What is known of one kind of module. -/
structure TypeInfo where
  kind : Kind
  title : String
  weight : Nat
  mandatory : Bool
  needs : List Kind
  deriving DecidableEq, Repr, Inhabited

namespace TypeInfo

/-- An optional type that needs nothing. -/
def optional (kind : Kind) (title : String) (weight : Nat) : TypeInfo :=
  ⟨kind, title, weight, false, []⟩

/-- The same type, mandatory. -/
def required (i : TypeInfo) : TypeInfo := { i with mandatory := true }

/-- The same type, started after modules of kind `k`; a kind is noted once. -/
def needing (i : TypeInfo) (k : Kind) : TypeInfo :=
  if k ∈ i.needs then i else { i with needs := i.needs ++ [k] }

end TypeInfo

/-- The known types of modules, in the order in which they were added. -/
structure TypeCatalogue where
  entries : List TypeInfo
  deriving DecidableEq, Repr, Inhabited

namespace TypeCatalogue

/-- The catalogue without any type. -/
def empty : TypeCatalogue := ⟨[]⟩

/-- The entry of a kind. -/
def find? (c : TypeCatalogue) (k : Kind) : Option TypeInfo :=
  c.entries.find? fun i => i.kind = k

/-- Whether a kind is known. -/
def contains (c : TypeCatalogue) (k : Kind) : Bool := (c.find? k).isSome

/-- The entry that has a weight. -/
def ownerOf? (c : TypeCatalogue) (weight : Nat) : Option TypeInfo :=
  c.entries.find? fun i => i.weight = weight

/-- Adds a type, unless its kind or its weight is taken. -/
def add (c : TypeCatalogue) (i : TypeInfo) : Except Refusal TypeCatalogue :=
  if c.contains i.kind then .error (.duplicateKind i.kind.name)
  else match c.ownerOf? i.weight with
    | some owner => .error (.duplicateWeight i.kind.name owner.kind.name i.weight)
    | none => .ok ⟨c.entries ++ [i]⟩

/-- Adds types one after another; the first refusal is the result. -/
def addAll (c : TypeCatalogue) : List TypeInfo → Except Refusal TypeCatalogue
  | [] => .ok c
  | i :: rest => match c.add i with
    | .ok c' => c'.addAll rest
    | .error e => .error e

/-- The title of a kind; a kind that is not known goes by its name. -/
def titleOf (c : TypeCatalogue) (k : Kind) : String :=
  ((c.find? k).map TypeInfo.title).getD k.name

/-- The entries in the order of their weights. -/
def byWeight (c : TypeCatalogue) : List TypeInfo :=
  sortBy (fun a b => a.weight ≤ b.weight) c.entries

/-- How many types there are. -/
def size (c : TypeCatalogue) : Nat := c.entries.length

/-- Whether there are no types. -/
def isEmpty (c : TypeCatalogue) : Bool := c.entries.isEmpty

/-- The five core types. -/
def core : TypeCatalogue :=
  ⟨[(TypeInfo.optional Kind.credentials "Credentials" 1).required,
    (TypeInfo.optional Kind.console "Console Logging" 2).required,
    (TypeInfo.optional Kind.database "Database Connection" 3).needing Kind.credentials,
    TypeInfo.optional Kind.io "File Management" 4,
    (((TypeInfo.optional Kind.gateway "Remote Gateway" 5).required).needing
      Kind.credentials).needing Kind.console]⟩

theorem find?_empty (k : Kind) : empty.find? k = none := rfl

theorem contains_iff {c : TypeCatalogue} {k : Kind} :
    c.contains k ↔ ∃ i ∈ c.entries, i.kind = k := by
  simp [contains, find?]

theorem kind_of_find? {c : TypeCatalogue} {k : Kind} {i : TypeInfo} (h : c.find? k = some i) :
    i.kind = k := by
  simpa using List.find?_some h

end TypeCatalogue

end Orchestra
