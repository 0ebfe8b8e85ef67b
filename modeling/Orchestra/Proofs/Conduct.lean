import Orchestra.Proofs.Course
import Orchestra.Proofs.Nesting
import Orchestra.Console.Session
import Orchestra.Scenario.Run

/-!
# Everybody uses buses through their functions

* `Blueprint.obeys_build`, `Ensemble.obeys_launch`, `Ensemble.obeys_shutdown`, `Ensemble.obeys_serve` — what
  is done with an ensemble obeys;
* `Scenario.Setting.world_isOrderly`, `Scenario.obeys_doStep` — so does everybody in a scenario, and every
  step of one;
* `Console.world_isOrderly`, `Console.obeys_session` — and so do the parts of the small process, and its main
  program.
-/

namespace Orchestra

open Program

variable {A : Application} {cast : Cast}

/-! ### Ensembles -/

namespace Blueprint

variable {bus : BusId}

theorem obeys_fillSlots (types : TypeCatalogue) (runtime request : TokenId) (crew : CrewId)
    (modules : List ListenerId) (slots : List Slot) :
    (fillSlots (A := A) cast bus types runtime request crew modules slots).Obeys .free := by
  induction modules generalizing slots with
  | nil => exact obeys_pure _
  | cons m rest ih =>
    rw [fillSlots]
    split
    · exact obeys_pure _
    · refine (obeys_ask id).bind fun token => ?_
      refine (Bus.obeys_register _ _ _).bind fun _ => ?_
      exact (obeys_ask id).bind fun _ => ih _

theorem obeys_registerAll (ls : List ListenerId) :
    (registerAll (A := A) cast bus ls).Obeys .free := by
  induction ls with
  | nil => exact obeys_pure _
  | cons l rest ih => exact (Bus.obeys_register _ _ _).bind fun _ => ih

theorem obeys_build (a : Blueprint) : (build (A := A) cast bus a).Obeys .free := by
  unfold build
  split
  · exact obeys_pure _
  · refine (obeys_ask id).bind fun runtime => ?_
    refine (obeys_ask id).bind fun request => ?_
    refine (obeys_ask id).bind fun crew => ?_
    refine (obeys_fillSlots ..).bind fun filled => ?_
    cases filled with
    | error refusal => exact obeys_pure _
    | ok slots => exact (obeys_registerAll _).bind fun _ => obeys_pure _

end Blueprint

theorem Kit.obeys_startWorker (c : Kit) (label : String) (job : A.Job) :
    (c.startWorker label job).Obeys .free :=
  (obeys_ask id).bind fun _ => obeys_ask id

theorem Crew.obeys_dissolve (crew : CrewId) (grace : Duration) :
    (dissolve (A := A) crew grace).Obeys .free := by
  refine (obeys_ask id).bind fun empty => ?_
  cases empty with
  | true => exact obeys_pure _
  | false => exact (obeys_ask id).bind fun stuck => (obeys_ask id).bind fun _ => obeys_pure _

namespace Ensemble

variable {name : String} {e : Ensemble}

theorem obeys_emit (bus : BusId) (event : Event) :
    (do let _ ← Bus.emit (A := A) cast bus event : Program A Unit).Obeys .free :=
  (Bus.obeys_publish _ _ _ _).bind fun _ => obeys_pure _

theorem obeys_assertFrom (passed rest : List Slot) :
    (assertFrom (A := A) cast name e passed rest).Obeys .free := by
  induction rest generalizing passed with
  | nil => exact obeys_pure _
  | cons s rest ih =>
    refine (obeys_ask id).bind fun o => ?_
    rcases o with f | ⟨⟩
    · exact obeys_pure _
    · exact (obeys_ask id).bind fun _ => ih _

theorem obeys_prepareAll (limit : Option Duration) (ls : List ListenerId) :
    (prepareAll (A := A) cast limit ls).Obeys .free := by
  induction ls with
  | nil => exact obeys_pure _
  | cons l rest ih =>
    refine (obeys_ask id).bind fun o => ?_
    rcases o with f | ⟨⟩
    · exact (obeys_ask id).bind fun _ => ih
    · exact ih

theorem obeys_runSlots (p : Phase) (ran : Nat) (passed : List Slot) (faults : List Fault)
    (rest : List Slot) : (runSlots (A := A) cast name e p ran passed faults rest).Obeys .free := by
  induction rest generalizing ran passed faults with
  | nil => exact (obeys_ask id).bind fun _ => (Bus.obeys_publish _ _ _ _).bind fun _ => obeys_pure _
  | cons s rest ih =>
    rw [runSlots]
    split
    · exact ih ..
    refine (obeys_ask id).bind fun o => ?_
    rcases o with f | ⟨⟩
    case ok => exact (obeys_ask id).bind fun _ => ih ..
    dsimp only
    split
    · exact (obeys_ask id).bind fun _ => (obeys_emit _ _).bind fun _ => obeys_pure _
    · split
      · refine (obeys_ask id).bind fun _ => (obeys_ask id).bind fun _ => ?_
        exact (obeys_emit _ _).bind fun _ => ih ..
      · refine (obeys_ask id).bind fun _ => (obeys_ask id).bind fun _ => ?_
        exact (obeys_emit _ _).bind fun _ => ih ..

theorem obeys_runPhases (slots : List Slot) (faults : List Fault) (ps : List Phase) :
    (runPhases (A := A) cast name e slots faults ps).Obeys .free := by
  induction ps generalizing slots faults with
  | nil => exact obeys_pure _
  | cons p rest ih =>
    refine (obeys_ask id).bind fun _ => (obeys_runSlots _ _ _ _ _).bind fun P => ?_
    split
    · exact obeys_pure _
    · exact ih ..

theorem obeys_launch : (e.launch (A := A) cast name).Obeys .free := by
  rw [launch]
  split
  · exact obeys_pure _
  refine (obeys_ask id).bind fun _ => (obeys_assertFrom _ _).bind fun P => ?_
  dsimp only
  split
  · exact obeys_pure _
  split
  · exact obeys_pure _
  refine (obeys_prepareAll _ _).bind fun _ => (obeys_runPhases _ _ _).bind fun Q => ?_
  split
  · exact obeys_pure _
  · exact (obeys_ask id).bind fun _ => obeys_pure _

theorem obeys_closeSlots (positions : List Nat) (c : Closing) :
    (closeSlots (A := A) cast name e positions c).Obeys .free := by
  induction positions generalizing c with
  | nil => exact obeys_pure _
  | cons i rest ih =>
    rw [closeSlots]
    split
    · exact ih _
    split
    · exact ih _
    refine (obeys_ask id).bind fun _ => (obeys_ask id).bind fun o => (obeys_ask id).bind fun _ => ?_
    rcases o with f | ⟨⟩
    · exact (obeys_ask id).bind fun _ => ih _
    · exact ih _

theorem obeys_unregisterAll (bus : BusId) (ls : List ListenerId) :
    (unregisterAll (A := A) cast bus ls).Obeys .free := by
  induction ls with
  | nil => exact obeys_pure _
  | cons l rest ih => exact (Bus.obeys_unregister _ _ _).bind fun _ => ih

theorem obeys_shutdown : (e.shutdown (A := A) cast name).Obeys .free := by
  rw [shutdown_eq]
  refine (obeys_closeSlots _ _).bind fun c => Obeys.bind ?_ fun _ => ?_
  · unfold announceClosing
    split
    · exact obeys_emit _ _
    · exact obeys_pure _
  · refine (obeys_ask id).bind fun _ => (Crew.obeys_dissolve _ _).bind fun stuck => ?_
    refine (obeys_unregisterAll _ _).bind fun _ => (obeys_unregisterAll _ _).bind fun _ => ?_
    exact (obeys_ask id).bind fun _ => obeys_pure _

theorem obeys_mustLaunch : (e.mustLaunch (A := A) cast name).Obeys .free := by
  refine obeys_launch.bind fun r => ?_
  obtain ⟨failure | report, e'⟩ := r
  · dsimp only
    split
    · exact (obeys_ask id).bind nofun
    · exact obeys_pure _
  · exact obeys_pure _

theorem obeys_awaitEnd (request : TokenId) : (awaitEnd (A := A) request).Obeys .free := by
  refine (obeys_ask id).bind fun cause => ?_
  cases cause with
  | unavailable error => exact (obeys_ask id).bind fun _ => (obeys_ask id).bind fun _ => obeys_pure _
  | _ => exact obeys_pure _

theorem obeys_serve : (e.serve (A := A) cast name).Obeys .free := by
  refine obeys_mustLaunch.bind fun r => ?_
  obtain ⟨failure | report, e'⟩ := r
  · exact (obeys_ask id).bind fun _ => obeys_shutdown.bind fun _ => obeys_pure _
  · refine (obeys_awaitEnd _).bind fun cause => (obeys_ask id).bind fun _ => ?_
    exact (Bus.obeys_publish _ _ _ _).bind fun _ => obeys_shutdown.bind fun _ => obeys_pure _

theorem obeys_snapshot (slots : List Slot) : (snapshot (A := A) cast slots).Obeys .free := by
  induction slots with
  | nil => exact obeys_pure _
  | cons s rest ih => exact (obeys_ask id).bind fun _ => ih.bind fun _ => obeys_pure _

end Ensemble

theorem EventLog.obeys_onEvent (event : Event) : (onEvent (A := A) event).Obeys .free :=
  (obeys_ask id).bind fun _ => obeys_pure _

/-! ### Scenarios -/

namespace Scenario

variable {s : Setting} {role : Role}

theorem obeys_noteEntry (actor what : String) (value : Reply) :
    (noteEntry actor what value).Obeys .free :=
  obeys_ask id

theorem obeys_viewKit (c : Kit) : (viewKit c).Obeys .free := by
  refine (obeys_ask id).bind fun _ => (obeys_ask id).bind fun _ => ?_
  exact (Bus.obeys_size _).bind fun _ => (obeys_ask id).bind fun _ => obeys_pure _

theorem obeys_doAction (a : Action) : (doAction s role a).Obeys .free := by
  cases a with
  | note | fail | keys | targets => exact obeys_pure _
  | sleep | spawn | abort => exact (obeys_ask id).bind fun _ => obeys_pure _
  | hang | panic => exact (obeys_ask id).bind nofun
  | register => exact (Bus.obeys_register _ _ _).bind fun _ => obeys_pure _
  | unregister => exact (Bus.obeys_unregister _ _ _).bind fun _ => obeys_pure _
  | contains => exact (Bus.obeys_contains _ _).bind fun _ => obeys_pure _
  | len => exact (Bus.obeys_size _).bind fun _ => obeys_pure _
  | isEmpty => exact (Bus.obeys_isEmpty _).bind fun _ => obeys_pure _
  | dispatch =>
    refine (Bus.obeys_dispatch _ _ _ _ _).bind fun r => ?_
    cases r with
    | ok => exact obeys_pure _
    | error => exact obeys_pure _
  | emit => exact (Bus.obeys_publish _ _ _ _).bind fun _ => obeys_pure _
  | join =>
    refine (obeys_ask id).bind fun e => ?_
    rcases e with - | - | - | - <;> exact obeys_pure _
  | markRunning | markHealthy | askShutdown | awaitCancel | cancelOwnToken =>
    rw [doAction]
    split
    · exact (obeys_ask id).bind fun _ => obeys_pure _
    · exact obeys_pure _
  | kit =>
    rw [doAction]
    split
    · exact (obeys_viewKit _).bind fun _ => obeys_pure _
    · exact obeys_pure _
  | startWorker =>
    rw [doAction]
    split
    · exact (Kit.obeys_startWorker _ _ _).bind fun _ => obeys_pure _
    · exact obeys_pure _

theorem obeys_runScript (script : List Action) : (runScript s role script).Obeys .free := by
  induction script with
  | nil => exact obeys_pure _
  | cons a rest ih =>
    refine (obeys_doAction a).bind fun r => ?_
    cases r with
    | error e => exact obeys_pure _
    | ok reply =>
      dsimp only
      split
      · exact (obeys_noteEntry _ _ _).bind fun _ => ih
      · exact ih

theorem obeys_followRules (l : ListenerId) (rules : List Rule) (event : Event) :
    (followRules s l role rules event).Obeys .free := by
  refine (obeys_ask id).bind fun n => (obeys_noteEntry _ _ _).bind fun _ => ?_
  have hend : (noteEntry role.actor "done" .nothing >>= fun _ => pure (.ok ()) :
      Program app Outcome).Obeys .free := (obeys_noteEntry _ _ _).bind fun _ => obeys_pure _
  dsimp only
  split
  · exact (obeys_runScript _).bind fun _ => hend
  · exact hend

theorem obeys_onEvent (l : ListenerId) (event : Event) : (onEvent s l event).Obeys .free := by
  unfold onEvent
  split
  · exact obeys_pure _
  · split
    · exact EventLog.obeys_onEvent event
    · exact obeys_followRules l _ event
  · split
    · exact obeys_pure _
    · exact obeys_followRules l _ event

theorem obeys_minimalHook (m : ListenerId) (phase : Phase) : (minimalHook m phase).Obeys .free := by
  cases phase with
  | launch | shutdown => exact (obeys_ask id).bind fun _ => obeys_pure _
  | _ => exact obeys_pure _

theorem obeys_onHook (m : ListenerId) (phase : Phase) (c : Kit) :
    (onHook s m phase c).Obeys .free := by
  unfold onHook
  split
  · split
    · exact obeys_minimalHook m phase
    · exact (obeys_noteEntry _ _ _).bind fun _ => obeys_runScript _
  · exact obeys_pure _

theorem obeys_onPrepare (l : ListenerId) : (onPrepare s l).Obeys .free := by
  unfold onPrepare
  split
  · split
    · exact obeys_pure _
    · exact (obeys_noteEntry _ _ _).bind fun _ => obeys_runScript _
  · split
    · exact obeys_pure _
    · exact (obeys_noteEntry _ _ _).bind fun _ => obeys_runScript _
  · exact obeys_pure _

theorem obeys_doJob (j : Job) : (doJob s j).Obeys .free := by
  refine (obeys_runScript _).bind fun _ => ?_
  split
  · exact (obeys_noteEntry _ _ _).bind fun _ => obeys_pure _
  · exact obeys_pure _

/-- **Everybody in a scenario obeys**, whatever the scripts say. -/
theorem Setting.world_isOrderly (s : Setting) : s.world.IsOrderly where
  body callee := by
    cases callee with
    | hook m phase c => exact obeys_onHook m phase c
    | onEvent l event => exact obeys_onEvent l event
    | prepare l => exact obeys_onPrepare l
  job := obeys_doJob

theorem obeys_reply (r : Reply) : (reply r).Obeys .free := (obeys_ask id).bind fun _ => obeys_pure _

theorem obeys_withEnsemble {name : String} {f : Ensemble → Program app Outcome}
    (h : ∀ e, (f e).Obeys .free) : (withEnsemble name f).Obeys .free := by
  refine (obeys_ask id).bind fun e => ?_
  cases e with
  | some e => exact h e
  | none => exact obeys_reply _

theorem obeys_buildStep (name : String) (spec : AssemblySpec) :
    (buildStep s name spec).Obeys .free := by
  unfold buildStep
  split
  · exact obeys_reply _
  · refine (Blueprint.obeys_build _).bind fun r => ?_
    cases r with
    | error e => exact obeys_reply _
    | ok e => exact (obeys_ask id).bind fun _ => obeys_reply _

/-- Every step of a scenario obeys. -/
theorem obeys_doStep (step : Step) : (doStep s step).Obeys .free := by
  cases step with
  | act a =>
    refine (obeys_doAction a).bind fun r => ?_
    cases r with
    | ok r => exact obeys_reply _
    | error e => exact obeys_reply _
  | build name spec => exact obeys_buildStep name spec
  | launch name =>
    exact obeys_withEnsemble fun e => Ensemble.obeys_launch.bind fun _ => obeys_reply _
  | mustLaunch name =>
    exact obeys_withEnsemble fun e => Ensemble.obeys_mustLaunch.bind fun _ => obeys_reply _
  | shutdown name =>
    exact obeys_withEnsemble fun e => Ensemble.obeys_shutdown.bind fun _ => obeys_reply _
  | serve name =>
    refine obeys_withEnsemble fun e => Ensemble.obeys_serve.bind fun r => ?_
    obtain ⟨failure | report, e'⟩ := r
    · exact obeys_reply _
    · exact obeys_reply _
  | snapshot name =>
    exact obeys_withEnsemble fun e => (Ensemble.obeys_snapshot _).bind fun _ => obeys_reply _
  | workers name => exact obeys_withEnsemble fun e => (obeys_ask id).bind fun _ => obeys_reply _
  | info name =>
    refine obeys_withEnsemble fun e => (Bus.obeys_size _).bind fun _ => ?_
    exact (obeys_ask id).bind fun _ => obeys_reply _
  | cancel name => exact obeys_withEnsemble fun e => (obeys_ask id).bind fun _ => obeys_reply _
  | drop name => exact (obeys_ask id).bind fun _ => obeys_reply _

end Scenario

/-! ### The small process -/

namespace Console

variable {around : Surroundings}

theorem obeys_say (level : Level) (message : String) (fields : List Field) :
    (say level message fields).Obeys .free :=
  obeys_ask id

theorem obeys_followInput (c : Kit) (n : Nat) (lines : List Line) :
    (followInput around c n lines).Obeys .free := by
  induction lines generalizing n with
  | nil =>
    rw [followInput]
    split
    · exact obeys_ask id
    · exact (obeys_ask id).bind fun _ => obeys_pure _
  | cons line rest ih =>
    refine (obeys_ask id).bind fun cancelled => ?_
    dsimp only
    split
    · exact obeys_pure _
    · cases line with
      | error flaw => exact obeys_say _ _ _
      | ok line =>
        dsimp only
        split
        · exact obeys_ask id
        · refine (Bus.obeys_dispatch _ _ _ _ _).bind fun r => ?_
          cases r with
          | ok d => exact ih _
          | error e => exact (obeys_say _ _ _).bind fun _ => ih _

theorem obeys_giveSigns (c : Kit) (left beat : Nat) : (giveSigns c left beat).Obeys .free := by
  induction left generalizing beat with
  | zero => exact obeys_ask id
  | succ left ih =>
    refine (Bus.obeys_publish _ _ _ _).bind fun _ => (obeys_ask id).bind fun cancelled => ?_
    cases cancelled with
    | true => exact obeys_pure _
    | false => exact ih _

theorem obeys_doJob (j : Job) : (doJob around j).Obeys .free := by
  cases j with
  | input c => exact (obeys_followInput _ _ _).bind fun _ => obeys_pure _
  | heartbeat c => exact (obeys_giveSigns _ _ _).bind fun _ => obeys_pure _

theorem obeys_handOut (c : Kit) (token : String) (services : List String) :
    (handOut c token services).Obeys .free := by
  induction services with
  | nil => exact obeys_pure _
  | cons service rest ih => exact (Bus.obeys_publish _ _ _ _).bind fun _ => ih

theorem obeys_hook (part : Part) (phase : Phase) (c : Kit) :
    (hook around part phase c).Obeys .free := by
  unfold hook
  split
  · exact obeys_pure _
  · exact (obeys_handOut _ _ _).bind fun _ => (obeys_ask id).bind fun _ => obeys_pure _
  · exact (Kit.obeys_startWorker _ _ _).bind fun _ => (obeys_ask id).bind fun _ => obeys_pure _
  · exact (obeys_say _ _ _).bind fun _ => obeys_pure _
  · refine (obeys_ask id).bind fun has => ?_
    split
    · exact (obeys_ask id).bind fun _ => (obeys_say _ _ _).bind fun _ => obeys_pure _
    · exact (obeys_ask id).bind fun _ => obeys_pure _
  · exact (Kit.obeys_startWorker _ _ _).bind fun _ => (obeys_ask id).bind fun _ => obeys_pure _
  · exact (obeys_ask id).bind fun _ => obeys_pure _
  · exact obeys_pure _

theorem obeys_onEvent (part : Part) (event : Event) : (onEvent part event).Obeys .free := by
  unfold onEvent
  split
  · exact (obeys_ask id).bind fun _ => obeys_pure _
  · exact (obeys_say _ _ _).bind fun _ => obeys_pure _
  · exact (obeys_say _ _ _).bind fun _ => obeys_pure _
  · exact EventLog.obeys_onEvent _
  · exact obeys_pure _

/-- **The parts of the small process obey**, whatever is typed. -/
theorem world_isOrderly (around : Surroundings) : (world around).IsOrderly where
  body callee := by
    cases callee with
    | hook m phase c =>
      unfold world
      dsimp only
      split
      · exact obeys_hook _ phase c
      · exact obeys_pure _
    | onEvent l event =>
      unfold world
      dsimp only
      split
      · exact obeys_onEvent _ event
      · exact obeys_pure _
    | prepare l => exact obeys_pure _
  job := obeys_doJob

theorem obeys_tellFinal (snapshots : List Snapshot) : (tellFinal snapshots).Obeys .free := by
  induction snapshots with
  | nil => exact obeys_pure _
  | cons s rest ih => exact (obeys_say _ _ _).bind fun _ => ih

theorem obeys_giveUp (failure : LaunchFailure) : (giveUp failure).Obeys .free :=
  (obeys_ask id).bind nofun

/-- The main program obeys. -/
theorem obeys_session : session.Obeys .free := by
  refine (Blueprint.obeys_build _).bind fun r => ?_
  cases r with
  | error failure => exact obeys_giveUp failure
  | ok e =>
    refine (obeys_ask id).bind fun _ => (obeys_say _ _ _).bind fun _ => ?_
    refine Ensemble.obeys_serve.bind fun r => ?_
    obtain ⟨failure | report, e'⟩ := r
    · exact obeys_giveUp failure
    · refine (Ensemble.obeys_snapshot _).bind fun _ => (obeys_tellFinal _).bind fun _ => ?_
      dsimp only
      split
      · exact (obeys_say _ _ _).bind fun _ => (obeys_ask id).bind fun _ => obeys_pure _
      · exact (obeys_ask id).bind fun _ => obeys_pure _

end Console

end Orchestra
