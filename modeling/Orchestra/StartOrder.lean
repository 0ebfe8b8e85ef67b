import Orchestra.ModuleType

/-!
# The order in which modules start

Modules start after the modules they need.  Among kinds that could start next, the lightest does;
modules of one kind keep the order in which they were added.

* `Sorting` — the state of the sort: how many needs of each kind are still open, the kinds that
  are ready in the order of weight and name, and the kinds placed so far;
* `Sorting.step` — places the first ready kind and closes one need for each entry that names it;
* `startOrder` — the positions of the modules in starting order, or the reason why there is none:
  the first kind that the catalogue lacks, or else the kinds that could not be placed.

Needs that no listed module can meet are left out of account.
-/

namespace Orchestra

/-- The state of the sort of the listed kinds. -/
structure Sorting where
  /-- For each listed kind, the number of its needs that are not placed yet. -/
  openNeeds : List (Kind × Int)
  /-- The kinds that can be placed, with their weights, in ascending order. -/
  ready : List (Nat × Kind)
  /-- The kinds placed so far, first to last. -/
  placed : List Kind
  deriving Repr, DecidableEq

/-- The kinds of a list, each once, in the order of their first occurrence. -/
def distinctKinds : List Kind → List Kind
  | [] => []
  | k :: rest => k :: (distinctKinds rest).filter (· ≠ k)

/-- Whether one ready entry goes before another: by weight, then by name. -/
def readyBefore (a b : Nat × Kind) : Bool :=
  a.1 < b.1 || (a.1 == b.1 && a.2.name ≤ b.2.name)

/-- Puts an entry into an ascending list of ready entries. -/
def insertReady (e : Nat × Kind) (ready : List (Nat × Kind)) : List (Nat × Kind) :=
  insertBy readyBefore e ready

/-- The kinds among `listed` that a kind needs, entry by entry, repeats included. -/
def listedNeeds (types : TypeCatalogue) (listed : List Kind) (k : Kind) : List Kind :=
  match types.find? k with
  | some info => info.needs.filter (· ∈ listed)
  | none => []

/-- The kinds that need `k`: each listed kind once for every entry that names `k`. -/
def dependents (types : TypeCatalogue) (listed : List Kind) (k : Kind) : List Kind :=
  listed.flatMap fun j => ((listedNeeds types listed j).filter (· = k)).map fun _ => j

/-- The weights of the listed kinds. -/
def weightTable (types : TypeCatalogue) (listed : List Kind) : List (Kind × Nat) :=
  listed.filterMap fun k => (types.find? k).map fun i => (k, i.weight)

/-- The weight of a kind in a table of weights. -/
def weightIn (table : List (Kind × Nat)) (k : Kind) : Option Nat := table.lookup k

namespace Sorting

/-- The number of open needs of a kind. -/
def openOf (s : Sorting) (k : Kind) : Option Int := s.openNeeds.lookup k

/-- Closes one need of a kind; a kind whose last need closes becomes ready. -/
def close (table : List (Kind × Nat)) (s : Sorting) (k : Kind) : Sorting :=
  match s.openOf k with
  | none => s
  | some n =>
    let needs := s.openNeeds.map fun e => if e.1 = k then (k, n - 1) else e
    if n - 1 = 0 then
      { s with openNeeds := needs, ready := insertReady ((weightIn table k).getD 0, k) s.ready }
    else { s with openNeeds := needs }

/-- Places the first ready kind and closes the needs that name it. -/
def step (types : TypeCatalogue) (listed : List Kind) (table : List (Kind × Nat))
    (s : Sorting) : Sorting :=
  match s.ready with
  | [] => s
  | (_, k) :: rest =>
    (dependents types listed k).foldl (close table)
      { s with ready := rest, placed := s.placed ++ [k] }

/-- The state before anything is placed: kinds without listed needs are ready. -/
def start (types : TypeCatalogue) (listed : List Kind) : Sorting :=
  let table := weightTable types listed
  let needs := listed.map fun k => (k, ((listedNeeds types listed k).length : Int))
  let free := (needs.filter fun e => e.2 = 0).map Prod.fst
  { openNeeds := needs
    ready := free.foldl (fun r k => insertReady ((weightIn table k).getD 0, k) r) []
    placed := [] }

/-- The state after `n` steps. -/
def after (types : TypeCatalogue) (listed : List Kind) : Nat → Sorting
  | 0 => start types listed
  | n + 1 => step types listed (weightTable types listed) (after types listed n)

end Sorting

/-- The kinds that remain unplaced, by name. -/
def unplaced (listed placed : List Kind) : List String :=
  sortBy (fun a b => a ≤ b) ((listed.filter (· ∉ placed)).map Kind.name)

/-- The positions at which a kind stands in a list. -/
def positionsOf (kinds : List Kind) (k : Kind) : List Nat :=
  (List.range kinds.length).filter fun i => kinds[i]? = some k

/-- The first listed kind that the catalogue lacks. -/
def firstUnknown (types : TypeCatalogue) (kinds : List Kind) : Option Kind :=
  kinds.find? fun k => !types.contains k

/-- The positions of the modules in starting order.  One step places one kind, so there are as
many steps as distinct kinds. -/
def startOrder (kinds : List Kind) (types : TypeCatalogue) : Except Refusal (List Nat) :=
  match firstUnknown types kinds with
  | some k => .error (.unknownKind k.name)
  | none =>
    let listed := distinctKinds kinds
    let final := Sorting.after types listed listed.length
    if final.placed.length = listed.length then
      .ok (final.placed.flatMap (positionsOf kinds))
    else .error (.cycle (unplaced listed final.placed))

end Orchestra
