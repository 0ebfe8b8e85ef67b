import Orchestra.Ensemble
import Orchestra.Event.Catalogue
import Orchestra.Record

/-!
# Programs

What tasks do is written as a `Program`: a tree of operations, each with a type of answers and the
program that goes on with the answer.  The bodies of hooks and listeners are not part of the tree;
a program names whom it calls, and a `World` says what the called one does.

* `Application` — what an application adds: the jobs it spawns, and a memory with operations on it;
* `Callee` — a hook, a listener or a preparation that is called;
* `Payload` — what a task panics with; `Termination` — what comes of waiting for termination;
* `Op` — one operation, with the type of its answers in `Op.Answer`;
* `Program` — operations in sequence; `Program.bind` makes it a monad;
* `Cast` — what is fixed about listeners, modules and buses; `World` — the cast and the bodies.
-/

namespace Orchestra

/-- What an application adds: jobs for its tasks and workers, and a memory of its own with the
operations on it. -/
structure Application where
  Job : Type
  Effect : Type
  Answer : Effect → Type
  Memory : Type
  perform : (e : Effect) → Memory → Answer e × Memory

/-- What a guarded call comes to. -/
abbrev Outcome := Except HookFailure Unit

/-- A body that is called by name. -/
inductive Callee where
  | hook (module : ListenerId) (phase : Phase) (kit : Kit)
  | onEvent (listener : ListenerId) (event : Event)
  | prepare (listener : ListenerId)
  deriving Repr, Inhabited

/-- A change to the listeners of a bus. -/
inductive Edit where
  | add (listener : ListenerId)
  | remove (listener : ListenerId)
  deriving DecidableEq, Repr, Inhabited

/-- The listeners after a change. -/
def Edit.apply : Edit → List ListenerId → List ListenerId
  | add l, set => if l ∈ set then set else set ++ [l]
  | remove l, set => set.filter (· ≠ l)

/-- Whether a change makes a difference. -/
def Edit.changes : Edit → List ListenerId → Bool
  | add l, set => l ∉ set
  | remove l, set => l ∈ set

/-- How a task came to its end. -/
inductive Ending where
  | finished
  | panicked
  | aborted
  deriving DecidableEq, Repr, Inhabited

/-- What a task panics with. -/
inductive Payload where
  | text (s : String)
  /-- Something that is no text. -/
  | other
  deriving DecidableEq, Repr, Inhabited

/-- A panic in words. -/
def Payload.message : Payload → String
  | text s => s
  | other => "non-string panic payload"

instance : Coe String Payload := ⟨.text⟩

/-- What comes of waiting for termination. -/
inductive Termination where
  | signal (s : Signal)
  | requested
  /-- The process cannot be told of signals. -/
  | unavailable (error : String)
  deriving DecidableEq, Repr, Inhabited

/-- The reason that is announced for a shutdown: where there is no signal, it is the request. -/
def Termination.reason : Termination → String
  | signal s => s.label
  | requested | unavailable _ => "requested"

/-- One operation of a program. -/
inductive Op (A : Application) where
  /-- Calls a body, apart from the caller: it may fail, panic or outlast its limit. -/
  | call (callee : Callee) (limit : Option Duration)
  /-- Gives up; the nearest call around reports it. -/
  | panic (payload : Payload)
  /-- The listeners that an enclosing delivery of this task holds for a bus. -/
  | enclosing (bus : BusId)
  /-- Waits for the bus to be readable, keeps it so, and answers its listeners. -/
  | beginDelivery (bus : BusId)
  /-- Ends the delivery begun last. -/
  | endDelivery
  /-- Waits for the bus to be readable and answers its listeners. -/
  | listeners (bus : BusId)
  /-- Waits for the bus to be free and changes its listeners; answers whether that made a
  difference. -/
  | edit (bus : BusId) (edit : Edit)
  | sleep (millis : Nat)
  /-- Waits for ever. -/
  | hang
  | newToken (parent : Option TokenId)
  | cancel (token : TokenId)
  | isCancelled (token : TokenId)
  | awaitCancel (token : TokenId)
  /-- Waits for a token, but no longer than so many milliseconds; answers whether it has been
  cancelled. -/
  | awaitCancelFor (token : TokenId) (millis : Nat)
  | spawn (name : String) (job : A.Job)
  /-- Waits for a task's end and forgets the task; no answer for a task that is not known. -/
  | join (name : String)
  | abort (name : String)
  | newCrew
  /-- Starts a worker of a crew. -/
  | hire (crew : CrewId) (name : String) (job : A.Job)
  /-- The workers of a crew that are still running. -/
  | crewNames (crew : CrewId)
  /-- Closes a crew and waits until it is empty, but no longer than the grace period; answers
  whether it became empty. -/
  | awaitCrew (crew : CrewId) (grace : Duration)
  | flags (module : ListenerId)
  | markRunning (module : ListenerId) (running : Bool)
  | markHealthy (module : ListenerId) (healthy : Bool)
  /-- The ensemble of a name. -/
  | stored (name : String)
  /-- Stores an ensemble under a name. -/
  | keep (name : String) (ensemble : Ensemble)
  /-- Forgets the ensemble of a name; answers whether there was one. -/
  | forget (name : String)
  | record (record : Record)
  /-- Has the process told of signals, and waits for one of them or for the token that asks for a
  shutdown.  If the process cannot be told of some signal, the answer is that, at once. -/
  | awaitTermination (request : TokenId)
  /-- Ends the process. -/
  | exit (status : Nat) (complaint : String)
  | app (effect : A.Effect)

/-- The answers to an operation. -/
@[reducible] def Op.Answer {A : Application} : Op A → Type
  | call .. => Outcome
  | panic _ => Empty
  | enclosing _ => Option (List ListenerId)
  | beginDelivery _ => List ListenerId
  | endDelivery => Unit
  | listeners _ => List ListenerId
  | edit .. => Bool
  | sleep _ => Unit
  | hang => Empty
  | newToken _ => TokenId
  | cancel _ => Unit
  | isCancelled _ => Bool
  | awaitCancel _ => Unit
  | awaitCancelFor .. => Bool
  | spawn .. => Unit
  | join _ => Option Ending
  | abort _ => Unit
  | newCrew => CrewId
  | hire .. => Unit
  | crewNames _ => List String
  | awaitCrew .. => Bool
  | flags _ => Flags
  | markRunning .. => Unit
  | markHealthy .. => Unit
  | stored _ => Option Ensemble
  | keep .. => Unit
  | forget _ => Bool
  | record _ => Unit
  | awaitTermination _ => Termination
  | exit .. => Empty
  | app e => A.Answer e

/-- Operations in sequence, each answer deciding how to go on. -/
inductive Program (A : Application) (α : Type) where
  | done (a : α)
  | perform (op : Op A) (next : op.Answer → Program A α)

namespace Program

variable {A : Application} {α β γ : Type}

/-- Goes on with the result of a program. -/
def bind : Program A α → (α → Program A β) → Program A β
  | done a, f => f a
  | perform op next, f => perform op fun x => (next x).bind f

instance : Monad (Program A) where
  pure := done
  bind := bind

/-- The program of one operation. -/
def ask (op : Op A) : Program A op.Answer := perform op done

@[simp] theorem bind_done (p : Program A α) : p.bind done = p := by
  induction p with
  | done a => rfl
  | perform op next ih => simp [bind, ih]

theorem bind_assoc (p : Program A α) (f : α → Program A β) (g : β → Program A γ) :
    (p.bind f).bind g = p.bind fun a => (f a).bind g := by
  induction p with
  | done a => rfl
  | perform op next ih => simp [bind, ih]

instance : LawfulMonad (Program A) :=
  LawfulMonad.mk' (Program A) (fun p => bind_done p) (fun _ _ => rfl) bind_assoc

end Program

/-- What is fixed about listeners, modules and buses. -/
structure Cast where
  name : ListenerId → String
  type : ListenerId → ListenerType
  kind : ListenerId → Kind
  identity : ListenerId → Identity
  catalogue : BusId → EventCatalogue
  /-- The longest that one listener of a bus may take over an event. -/
  listenerLimit : BusId → Option Duration

/-- The cast and what everybody in it does. -/
structure World (A : Application) where
  cast : Cast
  body : Callee → Program A Outcome
  job : A.Job → Program A Outcome

end Orchestra
