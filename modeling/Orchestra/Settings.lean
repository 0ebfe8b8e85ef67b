import Orchestra.Duration

/-!
# Settings

* `Config` — how an orchestrator drives its modules: the limit of a hook, how long shutdown waits
  for workers, and in which order modules are shut down;
* `Config.hookLimit?` — the limit of a hook, where a duration of zero means that there is none;
* `Signal` — the signals that end the wait for termination.
-/

namespace Orchestra

/-- The order in which modules are shut down. -/
inductive ClosingOrder where
  /-- The order in which they were started. -/
  | startup
  /-- The opposite order: modules stop before those they need. -/
  | reverse
  deriving DecidableEq, Repr, Inhabited

/-- The short name of an order. -/
def ClosingOrder.label : ClosingOrder → String
  | startup => "startup"
  | reverse => "reverse"

/-- How an orchestrator drives its modules. -/
structure Config where
  /-- The longest that one hook may take; zero for no limit. -/
  hookTimeout : Duration := .zero
  /-- How long shutdown waits for workers. -/
  grace : Duration := .ofSeconds 10
  closingOrder : ClosingOrder := .startup
  deriving DecidableEq, Repr, Inhabited

/-- The limit of one hook. -/
def Config.hookLimit? (c : Config) : Option Duration := c.hookTimeout.limit?

/-- The signals that ask a process to end. -/
inductive Signal where
  | interrupt
  | terminate
  | quit
  deriving DecidableEq, Repr, Inhabited

namespace Signal

/-- Every signal that asks a process to end. -/
def all : List Signal := [interrupt, terminate, quit]

/-- The name of a signal. -/
def label : Signal → String
  | interrupt => "SIGINT"
  | terminate => "SIGTERM"
  | quit => "SIGQUIT"

/-- The number of a signal. -/
def number : Signal → Nat
  | interrupt => 2
  | quit => 3
  | terminate => 15

end Signal

end Orchestra
