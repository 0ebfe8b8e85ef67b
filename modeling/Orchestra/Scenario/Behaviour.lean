import Orchestra.Crew
import Orchestra.EventLog
import Orchestra.Scenario.Players

/-!
# What the players do

* `app` — the application of a scenario: a log, a count of events for each listener, and the reply
  to the current step;
* `Role` — on whose behalf a script runs;
* `doAction`, `runScript` — one action, and actions up to the first that fails;
* `onEvent`, `onHook`, `onPrepare` — what a player does when it is called;
* `Setting.world` — the cast of a setting and everything it does.
-/

namespace Orchestra.Scenario

/-! ### The application -/

/-- On whose behalf a script runs. -/
structure Role where
  actor : String
  /-- The module whose flags the script may set. -/
  module : Option ListenerId := none
  /-- The module's kit, where there is one. -/
  kit : Option Kit := none

/-- The job of a task or a worker. -/
structure Job where
  role : Role
  script : List Action
  /-- Whether the end is noted. -/
  notesEnd : Bool

/-- What scripts keep. -/
inductive Effect where
  | note (e : Entry)
  /-- Counts an event of a listener; answers which one it is. -/
  | count (l : ListenerId)
  /-- Replies to the current step. -/
  | answer (r : Reply)

/-- The answers to an operation on the memory. -/
@[reducible] def Effect.Answer : Effect → Type
  | note _ => Unit
  | count _ => Nat
  | answer _ => Unit

/-- What scripts have kept. -/
structure Memory where
  log : List Entry := []
  counts : List (ListenerId × Nat) := []
  reply : Option Reply := none

/-- Keeps something. -/
def Effect.perform : (e : Effect) → Memory → e.Answer × Memory
  | note e, m => ((), { m with log := m.log ++ [e] })
  | count l, m =>
    let n := (m.counts.lookup l).getD 0 + 1
    (n, { m with counts := (l, n) :: m.counts.filter fun e => e.1 ≠ l })
  | answer r, m => ((), { m with reply := some r })

/-- The application of a scenario. -/
def app : Application where
  Job := Job
  Effect := Effect
  Answer := Effect.Answer
  Memory := Memory
  perform := Effect.perform

/-- Performs an operation on the memory. -/
def memorize (e : Effect) : Program app e.Answer := .ask (@Op.app app e)

/-- Notes something. -/
def noteEntry (actor what : String) (value : Reply) : Program app Unit :=
  memorize (.note ⟨actor, what, value⟩)

/-- Replies to the current step. -/
def reply (r : Reply) : Program app Outcome := do
  memorize (.answer r)
  return .ok ()

/-! ### Actions -/

/-- What a module sees of its kit. -/
def viewKit (c : Kit) : Program app Reply := do
  let cancelled ← .ask (.isCancelled c.token)
  let requested ← .ask (.isCancelled c.request)
  let listeners ← Bus.size c.bus
  let cancelledNow ← .ask (.isCancelled c.token)
  return .kit ⟨c.name, c.kind, c.identity, cancelled, requested, listeners,
    c.text cancelledNow⟩

/-- One action.  What needs a module or a kit does nothing without one. -/
def doAction (s : Setting) (role : Role) : Action → Program app (Except HookFailure Reply)
  | .note text => return .ok (.text text)
  | .sleep millis => do
    .ask (.sleep millis)
    return .ok .nothing
  | .hang => do
    let _ ← .ask .hang
    return .ok .nothing
  | .panic payload => do
    let _ ← .ask (.panic payload)
    return .ok .nothing
  | .fail _ failure => return .error failure
  | .register bus l => return .ok (.flag (← Bus.register s.cast (s.bus bus) (s.find l)))
  | .unregister bus l => return .ok (.flag (← Bus.unregister s.cast (s.bus bus) (s.find l)))
  | .contains bus l => return .ok (.flag (← Bus.contains (s.bus bus) (s.find l)))
  | .len bus => return .ok (.count (← Bus.size (s.bus bus)))
  | .isEmpty bus => return .ok (.flag (← Bus.isEmpty (s.bus bus)))
  | .keys bus => return .ok (.names ((s.cast.catalogue (s.bus bus)).keys.map EventKey.name))
  | .dispatch bus key args targets => do
    match ← Bus.dispatch s.cast (s.bus bus) key args targets with
    | .ok d => return .ok (.delivery d)
    | .error e => return .ok (.dispatchFailed e)
  | .emit bus event targets => do
    return .ok (.delivery (← Bus.publish s.cast (s.bus bus) event targets))
  | .targets set listeners =>
    return .ok (.targets set (listeners.map fun l => set.matchesType (s.cast.type (s.find l))))
  | .spawn id script => do
    .ask (.spawn id (⟨{ actor := id }, script, true⟩ : Job))
    return .ok .nothing
  | .join id => do
    match ← .ask (.join id) with
    | some .finished => return .ok (.text "finished")
    | some .panicked => return .ok (.text "panicked")
    | some .aborted => return .ok (.text "aborted")
    | none => return .ok (.text "unknown")
  | .abort id => do
    .ask (.abort id)
    return .ok .nothing
  | .markRunning b => do
    if let some m := role.module then .ask (.markRunning m b)
    return .ok .nothing
  | .markHealthy b => do
    if let some m := role.module then .ask (.markHealthy m b)
    return .ok .nothing
  | .askShutdown => do
    if let some c := role.kit then .ask (.cancel c.request)
    return .ok .nothing
  | .kit => match role.kit with
    | some c => return .ok (← viewKit c)
    | none => return .ok .nothing
  | .awaitCancel => do
    if let some c := role.kit then .ask (.awaitCancel c.token)
    return .ok .nothing
  | .cancelOwnToken => do
    if let some c := role.kit then .ask (.cancel c.token)
    return .ok .nothing
  | .startWorker label script => do
    if let some c := role.kit then
      let actor := ((role.module.bind s.player?).map Player.id).getD role.actor
      c.startWorker label (⟨{ role with actor := actor ++ "#" ++ label }, script, false⟩ : Job)
    return .ok .nothing

/-- Actions one after another, up to the first that fails; results are noted. -/
def runScript (s : Setting) (role : Role) : List Action → Program app Outcome
  | [] => return .ok ()
  | a :: rest => do
    match ← doAction s role a with
    | .error e => return .error e
    | .ok reply =>
      if !reply.isNothing then noteEntry role.actor a.name reply
      runScript s role rest

/-! ### Calls -/

/-- What a scripted player does with an event: it counts and notes it, runs the first rule for it,
and notes that it is done. -/
def followRules (s : Setting) (l : ListenerId) (role : Role) (rules : List Rule) (event : Event) :
    Program app Outcome := do
  let n ← memorize (.count l)
  noteEntry role.actor "recv" (.event event)
  match rules.find? fun r => r.isFor event n with
  | some r => let _ ← runScript s role r.script
  | none => pure ()
  noteEntry role.actor "done" .nothing
  return .ok ()

/-- What a player does with an event. -/
def onEvent (s : Setting) (l : ListenerId) (event : Event) : Program app Outcome :=
  match s.player? l with
  | none => return .ok ()
  | some (.listener spec) =>
    if spec.type = TypeName.log then EventLog.onEvent event
    else followRules s l { actor := spec.id } spec.rules event
  | some (.module spec) =>
    if spec.minimal then return .ok ()
    else followRules s l { actor := spec.id, module := some l } spec.rules event

/-- What a minimal module does in a phase: its flag says whether it runs. -/
def minimalHook (m : ListenerId) : Phase → Program app Outcome
  | .launch => do
    .ask (.markRunning m true)
    return .ok ()
  | .shutdown => do
    .ask (.markRunning m false)
    return .ok ()
  | _ => return .ok ()

/-- What a module does in a phase.  There is no kit in the assertion. -/
def onHook (s : Setting) (m : ListenerId) (phase : Phase) (c : Kit) :
    Program app Outcome :=
  match s.player? m with
  | some (.module spec) =>
    if spec.minimal then minimalHook m phase
    else do
      noteEntry spec.id "hook" (.text phase.label)
      let kit := if phase = .assertion then none else some c
      runScript s { actor := spec.id, module := some m, kit := kit }
        ((spec.hooks.lookup phase).getD [])
  | _ => return .ok ()

/-- What a player does to prepare. -/
def onPrepare (s : Setting) (l : ListenerId) : Program app Outcome :=
  match s.player? l with
  | some (.listener spec) =>
    if spec.type = TypeName.log ∨ spec.type = TypeName.plain then return .ok ()
    else do
      noteEntry spec.id "prepare" .nothing
      runScript s { actor := spec.id } spec.prepare
  | some (.module spec) =>
    if spec.minimal then return .ok ()
    else do
      noteEntry spec.id "prepare" .nothing
      runScript s { actor := spec.id, module := some l } spec.prepare
  | none => return .ok ()

/-- What a task or a worker does. -/
def doJob (s : Setting) (j : Job) : Program app Outcome := do
  let _ ← runScript s j.role j.script
  if j.notesEnd then noteEntry j.role.actor "end" .nothing
  return .ok ()

/-- The cast of a setting and everything it does. -/
def Setting.world (s : Setting) : World app where
  cast := s.cast
  body
    | .hook m phase c => onHook s m phase c
    | .onEvent l event => onEvent s l event
    | .prepare l => onPrepare s l
  job := doJob s

end Orchestra.Scenario
