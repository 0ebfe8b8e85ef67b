import Orchestra.Publishing

/-!
# Launching an ensemble

A launch asserts every module, looks for the required kinds, prepares the extra listeners, and then
drives the active modules through the startup phases, phase by phase.

* `Ensemble.assertFrom` — the assertions, in starting order; the first that fails ends the launch;
* `Ensemble.runSlots` — one phase over the slots.  In a phase that `Phase.abortsLaunch` tells of, a
  failing mandatory module aborts the launch and any other failing module is left out from then
  on; in the other phases a failing module goes on;
* `Ensemble.runPhases` — phase after phase, until one aborts;
* `Ensemble.launch` — the whole launch, which is possible once.

The ensemble is stored under its name after every change, so that what has been reached is known
even if the launch is given up in the middle.
-/

namespace Orchestra

variable {A : Application}

/-- Calls a module's hook for a phase. -/
def Slot.callHook (s : Slot) (phase : Phase) (limit : Option Duration) : Program A Outcome :=
  .ask (.call (.hook s.module phase s.kit) limit)

/-- What a phase, or several in sequence, came to. -/
structure Progress where
  slots : List Slot
  faults : List Fault
  /-- Why the launch was aborted, if it was. -/
  aborted : Option LaunchFailure
  deriving DecidableEq, Repr, Inhabited

namespace Ensemble

/-- Stores an ensemble with other slots under its name. -/
def keepSlots (name : String) (e : Ensemble) (slots : List Slot) : Program A Unit :=
  .ask (.keep name { e with slots := slots })

/-- Asserts the remaining modules, after those in `passed`. -/
def assertFrom (cast : Cast) (name : String) (e : Ensemble) (passed : List Slot) :
    List Slot → Program A Progress
  | [] => return ⟨passed, [], none⟩
  | s :: rest => do
    match ← s.callHook .assertion none with
    | .error failure =>
      return ⟨passed ++ s :: rest, [], some (.assertionFailed (cast.name s.module) failure)⟩
    | .ok () =>
      let s := { s with stage := .after .assertion }
      keepSlots name e (passed ++ s :: rest)
      assertFrom cast name e (passed ++ [s]) rest

/-- Prepares the extra listeners; failures are only recorded. -/
def prepareAll (cast : Cast) (limit : Option Duration) : List ListenerId → Program A Unit
  | [] => return ()
  | l :: rest => do
    match ← .ask (.call (.prepare l) limit) with
    | .ok () => prepareAll cast limit rest
    | .error failure =>
      .ask (.record ⟨.warn, Origin.orchestrator, "listener preparation failed: " ++ failure.message,
        [.plain "listener" (cast.name l), .plain "label" failure.label]⟩)
      prepareAll cast limit rest

/-- The record of a hook that failed. -/
def faultRecord (level : Level) (what module : String) (phase : Phase) (failure : HookFailure) :
    Record :=
  ⟨level, Origin.orchestrator, what ++ ": " ++ failure.message,
    [.plain "module" module, .shown "phase" phase.label, .plain "label" failure.label]⟩

/-- Announces a hook that failed. -/
def announceFault (cast : Cast) (bus : BusId) (module : String) (phase : Phase)
    (failure : HookFailure) (escalated : Bool) : Program A Unit := do
  let _ ← Bus.emit cast bus (.moduleFaulted module phase failure.message escalated)

/-- Runs a phase over the remaining slots, after those in `passed`, of which `ran` ran it. -/
def runSlots (cast : Cast) (name : String) (e : Ensemble) (phase : Phase) (ran : Nat)
    (passed : List Slot) (faults : List Fault) : List Slot → Program A Progress
  | [] => do
    .ask (.record ⟨.info, Origin.orchestrator, "phase completed",
      [.shown "phase" phase.label, .number "modules" ran]⟩)
    let _ ← Bus.emit cast e.bus (.phaseCompleted phase ran)
    return ⟨passed, faults, none⟩
  | s :: rest => do
    if !s.active then runSlots cast name e phase ran (passed ++ [s]) faults rest
    else
      let module := cast.name s.module
      match ← s.callHook phase e.config.hookLimit? with
      | .ok () =>
        let s := { s with stage := .after phase }
        keepSlots name e (passed ++ s :: rest)
        runSlots cast name e phase (ran + 1) (passed ++ [s]) faults rest
      | .error failure =>
        if phase.abortsLaunch && s.info.mandatory then
          .ask (.record (faultRecord .error "mandatory module failed" module phase failure))
          announceFault cast e.bus module phase failure true
          return ⟨passed ++ s :: rest, faults, some (.sequenceAborted module phase failure)⟩
        else if phase.abortsLaunch then
          let s := { s with active := false }
          keepSlots name e (passed ++ s :: rest)
          .ask (.record
            (faultRecord .warn "optional module failed, skipping it" module phase failure))
          announceFault cast e.bus module phase failure false
          runSlots cast name e phase ran (passed ++ [s])
            (faults ++ [⟨module, phase, failure, true⟩]) rest
        else
          let s := { s with stage := .after phase }
          keepSlots name e (passed ++ s :: rest)
          .ask (.record (faultRecord .warn "hook failed" module phase failure))
          announceFault cast e.bus module phase failure false
          runSlots cast name e phase (ran + 1) (passed ++ [s])
            (faults ++ [⟨module, phase, failure, false⟩]) rest

/-- Runs phases one after another until one aborts. -/
def runPhases (cast : Cast) (name : String) (e : Ensemble) (slots : List Slot)
    (faults : List Fault) : List Phase → Program A Progress
  | [] => return ⟨slots, faults, none⟩
  | phase :: rest => do
    .ask (.record ⟨.debug, Origin.orchestrator, "phase starting", [.shown "phase" phase.label]⟩)
    let p ← runSlots cast name e phase 0 [] faults slots
    if p.aborted.isSome then return p
    runPhases cast name e p.slots p.faults rest

/-- The names of the modules that are still active. -/
def activeNames (cast : Cast) (slots : List Slot) : List String :=
  (slots.filter Slot.active).map fun s => cast.name s.module

/-- Launches an ensemble; answers what came of it, and the ensemble as it is then. -/
def launch (cast : Cast) (name : String) (e : Ensemble) :
    Program A (Except LaunchFailure LaunchSummary × Ensemble) := do
  if e.launched then return (.error .alreadyLaunched, e)
  let e := { e with launched := true }
  .ask (.keep name e)
  let asserted ← assertFrom cast name e [] e.slots
  let e := { e with slots := asserted.slots }
  if let some failure := asserted.aborted then return (.error failure, e)
  if let some kind := e.missingKind? then
    return (.error (.missingMandatory kind.name (e.types.titleOf kind)), e)
  prepareAll cast e.config.hookLimit? e.listeners
  let p ← runPhases cast name e e.slots [] Phase.startup
  let e := { e with slots := p.slots }
  if let some failure := p.aborted then return (.error failure, e)
  let active := activeNames cast p.slots
  .ask (.record ⟨.info, Origin.orchestrator, "launch sequence complete",
    [.shown "active" (Text.quotedList active), .number "faults" p.faults.length]⟩)
  return (.ok ⟨active, p.faults⟩, e)

end Ensemble

end Orchestra
