import Orchestra.Program

/-!
# Fair locks

The listeners of a bus are guarded by a lock that many readers may hold at once and a writer alone.
It is fair: claims are granted in the order in which they were made, so a reader waits behind a
writer that came before it.

* `Claim` — a task's wish to read or to write; `Lock` — the claims granted and those that wait;
* `Lock.ask` — grants a claim at once if nobody waits and the holders admit it;
* `Lock.settle` — grants waiting claims from the front as long as the holders admit them;
* `Lock.release`, `Lock.withdraw` — give a claim back, and take one back that still waits.
-/

namespace Orchestra

/-- A task. -/
abbrev TaskId := Nat

/-- What a claim is for. -/
inductive Access where
  | read
  | write
  deriving DecidableEq, Repr, Inhabited

/-- A task's wish to read or to write. -/
structure Claim where
  task : TaskId
  access : Access
  deriving DecidableEq, Repr, Inhabited

/-- A fair lock. -/
structure Lock where
  /-- The claims that have been granted. -/
  holders : List Claim := []
  /-- The claims that wait, first come first. -/
  queue : List Claim := []
  deriving DecidableEq, Repr, Inhabited

namespace Lock

/-- Whether holders let a claim in beside them: readers let readers in, and nobody lets a writer
in. -/
def admits (holders : List Claim) : Access → Bool
  | .read => holders.all fun c => c.access = .read
  | .write => holders.isEmpty

/-- Makes a claim. -/
def ask (l : Lock) (c : Claim) : Lock :=
  if l.queue.isEmpty && admits l.holders c.access then { l with holders := l.holders ++ [c] }
  else { l with queue := l.queue ++ [c] }

/-- Grants claims from the front of a queue while the holders admit them; answers the tasks whose
claims were granted, in order. -/
def settleFrom (holders : List Claim) : List Claim → Lock × List TaskId
  | [] => (⟨holders, []⟩, [])
  | c :: rest =>
    if admits holders c.access then
      let (l, tasks) := settleFrom (holders ++ [c]) rest
      (l, c.task :: tasks)
    else (⟨holders, c :: rest⟩, [])

/-- Grants what can be granted. -/
def settle (l : Lock) : Lock × List TaskId := settleFrom l.holders l.queue

/-- Gives a granted claim back. -/
def release (l : Lock) (c : Claim) : Lock × List TaskId :=
  settle { l with holders := l.holders.erase c }

/-- Takes a claim back, whether it waits or has been granted. -/
def withdraw (l : Lock) (c : Claim) : Lock × List TaskId :=
  if c ∈ l.queue then settle { l with queue := l.queue.erase c } else l.release c

/-- Whether a task's claim still waits. -/
def isWaiting (l : Lock) (t : TaskId) : Bool := l.queue.any fun c => c.task = t

end Lock

/-- The state of a bus: its listeners in the order of registration, and the lock around them. -/
structure BusState where
  listeners : List ListenerId := []
  lock : Lock := {}
  deriving DecidableEq, Repr, Inhabited

end Orchestra
