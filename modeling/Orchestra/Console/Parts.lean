import Orchestra.Blueprint
import Orchestra.EventLog
import Orchestra.Closing
import Orchestra.Text.Blank
import Orchestra.Text.Utf8

/-!
# A small process: its parts

Four modules share a bus.  The credentials hand out tokens while they are launched; the console
dispatches each line that is typed; the gateway relays the lines; the database waits for its token.

* `Part` — the modules and the listener that logs events;
* `credentialsLoaded`, `consoleLine`, `heartbeat` — the events between them;
* `Job` — what the workers do: `followInput` reads lines until `quit`, the first line that is no
  text, or the end of the input; `giveSigns` gives signs of life;
* `hook`, `onEvent` — what the parts do when they are called.
-/

namespace Orchestra.Console

/-- One line of input: its text, or why it is none. -/
abbrev Line := Except Text.Utf8.Flaw String

/-- What surrounds the process. -/
structure Surroundings where
  /-- The lines that are typed. -/
  lines : List Line
  /-- How many milliseconds pass, once the worker waits for it, until the line at a position has been
  typed, or the input has ended there.  Unless told otherwise typing starts when everybody waits. -/
  pauses : Nat → Nat := fun n => if n = 0 then 1 else 0
  /-- Whether the input stays open after the last line. -/
  keepsOpen : Bool := false
  /-- Whether the credentials are denied. -/
  denied : Bool := false
  /-- The token that the credentials hand out. -/
  token : Option String := none
  /-- The signal that comes once everything that was typed has been handled. -/
  signal : Option Signal := none

/-! ### The application -/

/-- What the workers do. -/
inductive Job where
  | input (kit : Kit)
  | heartbeat (kit : Kit)

/-- What the parts keep. -/
inductive Effect where
  /-- Keeps the database's token. -/
  | keepToken (token : String)
  /-- Whether the database has its token. -/
  | hasToken
  /-- Keeps the exit status. -/
  | conclude (status : Nat)

/-- The answers to an operation on the memory. -/
@[reducible] def Effect.Answer : Effect → Type
  | keepToken _ => Unit
  | hasToken => Bool
  | conclude _ => Unit

/-- What the parts have kept. -/
structure Memory where
  token : Option String := none
  status : Option Nat := none

/-- Keeps something. -/
def Effect.perform : (e : Effect) → Memory → e.Answer × Memory
  | keepToken t, m => ((), { m with token := some t })
  | hasToken, m => (m.token.isSome, m)
  | conclude status, m => ((), { m with status := some status })

/-- The application of the process. -/
def app : Application where
  Job := Job
  Effect := Effect
  Answer := Effect.Answer
  Memory := Memory
  perform := Effect.perform

/-- Performs an operation on the memory. -/
def memorize (e : Effect) : Program app e.Answer := .ask (@Op.app app e)

/-! ### The cast -/

/-- The modules, and the listener that logs events. -/
inductive Part where
  | credentials
  | console
  | database
  | gateway
  | log
  deriving DecidableEq, Repr, Inhabited

namespace Part

/-- Every part, each at the position that is its identity as a listener. -/
def all : List Part := [credentials, console, database, gateway, log]

/-- The identity of a part as a listener. -/
def id : Part → ListenerId
  | credentials => 0
  | console => 1
  | database => 2
  | gateway => 3
  | log => 4

/-- The name of a part. -/
def name : Part → String
  | credentials => "credentials"
  | console => "console"
  | database => "database"
  | gateway => "gateway"
  | log => EventLog.name

/-- The listener type of a part. -/
def type : Part → ListenerType
  | credentials => ⟨"assembly::Credentials"⟩
  | console => ⟨"assembly::Console"⟩
  | database => ⟨"assembly::Database"⟩
  | gateway => ⟨"assembly::Gateway"⟩
  | log => EventLog.type

/-- The part of an identity. -/
def ofId? (l : ListenerId) : Option Part := all[l]?

end Part

/-- The longest that a listener may take. -/
def listenerTimeout : Duration := .ofSeconds 2

/-- The bus of the process. -/
def bus : BusId := 0

/-! ### Events -/

/-- A token for a service. -/
def credentialsLoaded (service token : String) : Event :=
  .app ⟨"credentials_loaded", ⟨"credentials.loaded"⟩, .high, [.text service, .text token]⟩

/-- The key of a typed line. -/
def consoleLineKey : EventKey := ⟨"console.line"⟩

/-- A line that was typed. -/
def consoleLine (line : String) : Event :=
  .app ⟨"console_line", consoleLineKey, .intermediate, [.text line]⟩

/-- Reads a line. -/
def makeConsoleLine : Constructor := fun as => do
  return consoleLine (← as.copied consoleLineKey .string 0)

/-- A sign of life. -/
def heartbeat (beat : Nat) : Event :=
  .app ⟨"heartbeat", ⟨"gateway.heartbeat"⟩, .low, [.int (Int.ofNat beat)]⟩

/-- The events of the process. -/
def catalogue : EventCatalogue :=
  ⟨EventCatalogue.lifecycle.entries ++ [(consoleLineKey, makeConsoleLine)]⟩

/-- What is fixed about the parts. -/
def cast : Cast where
  name l := ((Part.ofId? l).map Part.name).getD ""
  type l := ((Part.ofId? l).map Part.type).getD default
  kind l := ⟨((Part.ofId? l).map Part.name).getD ""⟩
  identity l := Identity.random l
  catalogue _ := catalogue
  listenerLimit _ := listenerTimeout.limit?

/-! ### Workers -/

/-- The part of the program that writes its own records. -/
def origin : String := "assembly"

/-- Writes a record. -/
def say (level : Level) (message : String) (fields : List Field) : Program app Unit :=
  .ask (.record ⟨level, origin, message, fields⟩)

/-- The word that ends the session. -/
def quitWord : String := "quit"

/-- Dispatches one line after another as they are typed, up to a line that says `quit`, which asks for
a shutdown, and no further than the first that is no text.  `n` lines have been read before.  Of a
line that has been typed and an order to end it is the order that counts. -/
def followInput (around : Surroundings) (c : Kit) (n : Nat) : List Line → Program app Unit
  | [] =>
    if around.keepsOpen then .ask (.awaitCancel c.token)
    else do
      let _ ← .ask (.awaitCancelFor c.token (around.pauses n))
  | line :: rest => do
    if ← .ask (.awaitCancelFor c.token (around.pauses n)) then return ()
    match line with
    | .error flaw => say .warn ("stdin closed: " ++ flaw.message) []
    | .ok line =>
      if Text.trim line = quitWord then .ask (.cancel c.request)
      else
        match ← Bus.dispatch cast c.bus consoleLineKey ⟨[⟨.string, line⟩]⟩ none with
        | .ok _ => pure ()
        | .error e => say .warn ("console line dropped: " ++ e.message) []
        followInput around c (n + 1) rest

/-- The longest that a session may take. -/
def sessionLimit : Duration := .ofSeconds 86400

/-- The milliseconds from one sign of life to the next. -/
def beatPeriod : Nat := 5000

/-- How many signs of life there can be in a session. -/
def sessionBeats : Nat := sessionLimit.ceilMillis / beatPeriod + 1

/-- Gives one sign of life after another until it is told to end.  So many are left to be given: no
session is longer. -/
def giveSigns (c : Kit) : (left : Nat) → (beat : Nat) → Program app Unit
  | 0, _ => .ask (.awaitCancel c.token)
  | left + 1, beat => do
    let _ ← Bus.emit cast c.bus (heartbeat beat)
    if ← .ask (.awaitCancelFor c.token beatPeriod) then return ()
    giveSigns c left (beat + 1)

/-- What a worker does. -/
def doJob (around : Surroundings) : Job → Program app Outcome
  | .input c => do
    followInput around c 0 around.lines
    return .ok ()
  | .heartbeat c => do
    giveSigns c sessionBeats 1
    return .ok ()

/-! ### Calls -/

/-- Hands the token to the services that need one. -/
def handOut (c : Kit) (token : String) : List String → Program app Unit
  | [] => return ()
  | service :: rest => do
    let targets := TargetSet.ofList [Part.database.type, Part.gateway.type]
    let _ ← Bus.publish cast c.bus (credentialsLoaded service token) (some targets)
    handOut c token rest

/-- What a part does in a phase. -/
def hook (around : Surroundings) (part : Part) (phase : Phase) (c : Kit) :
    Program app Outcome :=
  match part, phase with
  | .credentials, .assertion =>
    return if around.denied then .error (.precondition "MODVISOR_DEMO_DENY is set") else .ok ()
  | .credentials, .launch => do
    handOut c (around.token.getD "demo-token") ["database", "gateway"]
    .ask (.markRunning part.id true)
    return .ok ()
  | .console, .launch => do
    c.startWorker "stdin" (Job.input c)
    .ask (.markRunning part.id true)
    return .ok ()
  | .console, .postLaunch => do
    say .info "type a line to broadcast it, `quit` to stop" []
    return .ok ()
  | .database, .postLaunch => do
    if ← memorize .hasToken then
      .ask (.markRunning part.id true)
      say .info "database connected" []
      return .ok ()
    else
      .ask (.markHealthy part.id false)
      return .error (.failed "no database credentials")
  | .gateway, .launch => do
    c.startWorker "heartbeat" (Job.heartbeat c)
    .ask (.markRunning part.id true)
    return .ok ()
  | _, .shutdown => do
    .ask (.markRunning part.id false)
    return .ok ()
  | _, _ => return .ok ()

/-- What a part does with an event. -/
def onEvent (part : Part) (event : Event) : Program app Outcome :=
  match part, event with
  | .database, .app ⟨"credentials_loaded", _, _, [.text "database", .text token]⟩ => do
    memorize (.keepToken token)
    return .ok ()
  | .gateway, .app ⟨"credentials_loaded", _, _, [.text "gateway", _]⟩ => do
    say .info "gateway authenticated" []
    return .ok ()
  | .gateway, .app ⟨"console_line", _, _, [.text line]⟩ => do
    say .info "gateway relaying console line" [.shown "line" line]
    return .ok ()
  | .log, event => EventLog.onEvent event
  | _, _ => return .ok ()

/-- The parts and everything they do. -/
def world (around : Surroundings) : World app where
  cast := cast
  body
    | .hook m phase c => match Part.ofId? m with
      | some part => hook around part phase c
      | none => return .ok ()
    | .onEvent l event => match Part.ofId? l with
      | some part => onEvent part event
      | none => return .ok ()
    | .prepare _ => return .ok ()
  job := doJob around

end Orchestra.Console
