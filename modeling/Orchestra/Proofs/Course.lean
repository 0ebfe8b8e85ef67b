import Orchestra.Closing
import Orchestra.Proofs.Run

/-!
# The course of a launch and of a shutdown

A course tells what is done with the modules and listeners of an ensemble, step by step, and leaves
out what is written to the records and told to the bus.

* `AssertionCourse`, `PhaseCourse`, `SequenceCourse`, `LaunchCourse` — the assertions, one phase,
  phases in sequence, and a launch as a whole;
* `StoppingCourse`, `ShutdownCourse` — the shutdown hooks, and a shutdown as a whole;
* `shutdown_eq` — a shutdown, part by part;
* `launch_course`, `shutdown_course` — every run of the programs follows its course, whatever answers
  it is given;
* `ServeCourse`, `serve_course` — serving is a launch, a wait and a shutdown;
* `Op.Launches`, `Op.CallsHooks`, `Op.Dismisses` — what is asked in a launch, for the hooks of one phase, and
  after those of a shutdown;
* `only_launch`, `only_shutdown` — launches and shutdowns ask only what can be answered.
-/

namespace Orchestra

variable {A : Application}

/-! ### Slots -/

/-- The slot once its module has completed a phase. -/
def Slot.reached (s : Slot) (p : Phase) : Slot := { s with stage := .after p }

/-- The slot once its module is left out of the launch. -/
def Slot.leftOut (s : Slot) : Slot := { s with active := false }

/-- The hook of a slot's module for a phase, called with the module's kit. -/
def Slot.hook (s : Slot) (p : Phase) : Callee := .hook s.module p s.kit

section

variable (s : Slot) (p : Phase)

@[simp] theorem Slot.reached_module : (s.reached p).module = s.module := rfl
@[simp] theorem Slot.reached_info : (s.reached p).info = s.info := rfl
@[simp] theorem Slot.reached_kit : (s.reached p).kit = s.kit := rfl
@[simp] theorem Slot.reached_active : (s.reached p).active = s.active := rfl
@[simp] theorem Slot.leftOut_module : s.leftOut.module = s.module := rfl
@[simp] theorem Slot.leftOut_kit : s.leftOut.kit = s.kit := rfl
@[simp] theorem Slot.leftOut_active : s.leftOut.active = false := rfl

end

/-! ### Courses -/

/-- The assertions of the remaining slots, after those that have held. -/
inductive AssertionCourse (cast : Cast) : List Slot → List Slot → List Deed → Progress → Prop where
  | done (passed : List Slot) : AssertionCourse cast passed [] [] ⟨passed, [], none⟩
  | failed (passed rest : List Slot) (s : Slot) (f : HookFailure) :
      AssertionCourse cast passed (s :: rest) [.called (s.hook .assertion) (.error f)]
        ⟨passed ++ s :: rest, [], some (.assertionFailed (cast.name s.module) f)⟩
  | held {passed rest : List Slot} {s : Slot} {ds : List Deed} {P : Progress} :
      AssertionCourse cast (passed ++ [s.reached .assertion]) rest ds P →
      AssertionCourse cast passed (s :: rest)
        (.called (s.hook .assertion) (.ok ()) :: .stored (passed ++ s.reached .assertion :: rest)
          :: ds) P

/-- A phase over the remaining slots, after those that have been through it. -/
inductive PhaseCourse (cast : Cast) (p : Phase) :
    List Slot → List Fault → List Slot → List Deed → Progress → Prop where
  | done (passed : List Slot) (faults : List Fault) :
      PhaseCourse cast p passed faults [] [] ⟨passed, faults, none⟩
  | absent {passed rest : List Slot} {faults : List Fault} {s : Slot} {ds : List Deed}
      {P : Progress} : s.active = false →
      PhaseCourse cast p (passed ++ [s]) faults rest ds P →
      PhaseCourse cast p passed faults (s :: rest) ds P
  | ran {passed rest : List Slot} {faults : List Fault} {s : Slot} {ds : List Deed}
      {P : Progress} : s.active = true →
      PhaseCourse cast p (passed ++ [s.reached p]) faults rest ds P →
      PhaseCourse cast p passed faults (s :: rest)
        (.called (s.hook p) (.ok ()) :: .stored (passed ++ s.reached p :: rest) :: ds) P
  | aborted (passed rest : List Slot) (faults : List Fault) {s : Slot} (f : HookFailure) :
      s.active = true → p.abortsLaunch = true → s.info.mandatory = true →
      PhaseCourse cast p passed faults (s :: rest) [.called (s.hook p) (.error f)]
        ⟨passed ++ s :: rest, faults, some (.sequenceAborted (cast.name s.module) p f)⟩
  | leftOut {passed rest : List Slot} {faults : List Fault} {s : Slot} {ds : List Deed}
      {P : Progress} (f : HookFailure) : s.active = true → p.abortsLaunch = true →
      s.info.mandatory = false →
      PhaseCourse cast p (passed ++ [s.leftOut])
        (faults ++ [⟨cast.name s.module, p, f, true⟩]) rest ds P →
      PhaseCourse cast p passed faults (s :: rest)
        (.called (s.hook p) (.error f) :: .stored (passed ++ s.leftOut :: rest) :: ds) P
  | noted {passed rest : List Slot} {faults : List Fault} {s : Slot} {ds : List Deed}
      {P : Progress} (f : HookFailure) : s.active = true → p.abortsLaunch = false →
      PhaseCourse cast p (passed ++ [s.reached p])
        (faults ++ [⟨cast.name s.module, p, f, false⟩]) rest ds P →
      PhaseCourse cast p passed faults (s :: rest)
        (.called (s.hook p) (.error f) :: .stored (passed ++ s.reached p :: rest) :: ds) P

/-- Phases in sequence, until one aborts. -/
inductive SequenceCourse (cast : Cast) :
    List Slot → List Fault → List Phase → List Deed → Progress → Prop where
  | done (slots : List Slot) (faults : List Fault) :
      SequenceCourse cast slots faults [] [] ⟨slots, faults, none⟩
  | aborted {slots : List Slot} {faults : List Fault} {p : Phase} {rest : List Phase}
      {ds : List Deed} {P : Progress} : PhaseCourse cast p [] faults slots ds P →
      P.aborted.isSome = true → SequenceCourse cast slots faults (p :: rest) ds P
  | next {slots : List Slot} {faults : List Fault} {p : Phase} {rest : List Phase}
      {ds ds' : List Deed} {P P' : Progress} : PhaseCourse cast p [] faults slots ds P →
      P.aborted = none → SequenceCourse cast P.slots P.faults rest ds' P' →
      SequenceCourse cast slots faults (p :: rest) (ds ++ ds') P'

/-- The preparations of listeners, whatever comes of them. -/
inductive PreparationCourse : List ListenerId → List Deed → Prop where
  | done : PreparationCourse [] []
  | prepared (l : ListenerId) (o : Outcome) {rest : List ListenerId} {ds : List Deed} :
      PreparationCourse rest ds → PreparationCourse (l :: rest) (.called (.prepare l) o :: ds)

/-- A launch, with its result and the ensemble at its end. -/
inductive LaunchCourse (cast : Cast) (e : Ensemble) :
    List Deed → Except LaunchFailure LaunchSummary × Ensemble → Prop where
  | repeated : e.launched = true → LaunchCourse cast e [] (.error .alreadyLaunched, e)
  | asserted {ds : List Deed} {P : Progress} {f : LaunchFailure} : e.launched = false →
      AssertionCourse cast [] e.slots ds P → P.aborted = some f →
      LaunchCourse cast e (.stored e.slots :: ds)
        (.error f, { e with launched := true, slots := P.slots })
  | missing {ds : List Deed} {P : Progress} {k : Kind} : e.launched = false →
      AssertionCourse cast [] e.slots ds P → P.aborted = none →
      ({ e with slots := P.slots } : Ensemble).missingKind? = some k →
      LaunchCourse cast e (.stored e.slots :: ds)
        (.error (.missingMandatory k.name (e.types.titleOf k)),
          { e with launched := true, slots := P.slots })
  | aborted {ds ds' ds'' : List Deed} {P Q : Progress} {f : LaunchFailure} : e.launched = false →
      AssertionCourse cast [] e.slots ds P → P.aborted = none →
      ({ e with slots := P.slots } : Ensemble).missingKind? = none →
      PreparationCourse e.listeners ds' →
      SequenceCourse cast P.slots [] Phase.startup ds'' Q → Q.aborted = some f →
      LaunchCourse cast e (.stored e.slots :: ds ++ ds' ++ ds'')
        (.error f, { e with launched := true, slots := Q.slots })
  | completed {ds ds' ds'' : List Deed} {P Q : Progress} : e.launched = false →
      AssertionCourse cast [] e.slots ds P → P.aborted = none →
      ({ e with slots := P.slots } : Ensemble).missingKind? = none →
      PreparationCourse e.listeners ds' →
      SequenceCourse cast P.slots [] Phase.startup ds'' Q → Q.aborted = none →
      LaunchCourse cast e (.stored e.slots :: ds ++ ds' ++ ds'')
        (.ok ⟨Ensemble.activeNames cast Q.slots, Q.faults⟩,
          { e with launched := true, slots := Q.slots })

/-- The fault of a shutdown hook, if it failed. -/
def closingFault (cast : Cast) (s : Slot) : Outcome → List Fault
  | .ok _ => []
  | .error f => [⟨cast.name s.module, .shutdown, f, false⟩]

/-- The shutdown hooks at the given positions, of those slots that are due. -/
inductive StoppingCourse (cast : Cast) : List Nat → Closing → List Deed → Closing → Prop where
  | done (c : Closing) : StoppingCourse cast [] c [] c
  | nobody {i : Nat} {rest : List Nat} {c c' : Closing} {ds : List Deed} : c.slots[i]? = none →
      StoppingCourse cast rest c ds c' → StoppingCourse cast (i :: rest) c ds c'
  | idle {i : Nat} {rest : List Nat} {c c' : Closing} {ds : List Deed} {s : Slot} :
      c.slots[i]? = some s → s.isDue = false →
      StoppingCourse cast rest c ds c' → StoppingCourse cast (i :: rest) c ds c'
  | stopped {i : Nat} {rest : List Nat} {c c' : Closing} {ds : List Deed} {s : Slot} (o : Outcome) :
      c.slots[i]? = some s → s.isDue = true →
      StoppingCourse cast rest ⟨c.slots.set i (s.reached .shutdown), c.ran + 1,
        c.failures ++ closingFault cast s o⟩ ds c' →
      StoppingCourse cast (i :: rest) c (.called (s.hook .shutdown) o
        :: .stored (c.slots.set i (s.reached .shutdown)) :: ds) c'

/-- A shutdown, with its report and the ensemble at its end. -/
inductive ShutdownCourse (cast : Cast) (e : Ensemble) :
    List Deed → ShutdownSummary × Ensemble → Prop where
  | closed {ds : List Deed} {c : Closing} (stuck : List String) :
      StoppingCourse cast e.shutdownPositions ⟨e.slots, 0, []⟩ ds c →
      ShutdownCourse cast e ds (⟨c.failures, stuck⟩, { e with slots := c.slots })

/-- Serving, with what has ended the wait if there was one: a launch; a shutdown at once if the launch has
failed, and otherwise a wait, the announcement of the shutdown, and the shutdown. -/
inductive ServeCourse (cast : Cast) (name : String) (e : Ensemble) : List (Exchange A) →
    Option Termination → Except LaunchFailure ShutdownSummary × Ensemble → Prop where
  | failed {launched closed : List (Exchange A)} {f : LaunchFailure} {e₁ : Ensemble}
      {c : ShutdownSummary × Ensemble} (record : Record) :
      Program.Run (e.launch cast name) launched (.error f, e₁) → f.endsProcess = false →
      Program.Run (e₁.shutdown cast name) closed c →
      ServeCourse cast name e (launched ++ ⟨.record record, ()⟩ :: closed) none (.error f, c.2)
  | ended {launched waited told closed : List (Exchange A)} {report : LaunchSummary} {e₁ : Ensemble}
      {cause : Termination} {d : Delivery} {c : ShutdownSummary × Ensemble} (record : Record) :
      Program.Run (e.launch cast name) launched (.ok report, e₁) →
      Program.Run (Ensemble.awaitEnd e.request) waited cause →
      Program.Run (Bus.emit cast e.bus (.shutdownRequested cause.reason)) told d →
      Program.Run (e₁.shutdown cast name) closed c →
      ServeCourse cast name e (launched ++ (waited ++
        ⟨.record record, ()⟩ :: (told ++ closed))) (some cause) (.ok c.1, c.2)

/-- A launch changes nothing of an ensemble but its slots, and that it has been launched. -/
theorem LaunchCourse.eq_with {cast : Cast} {e : Ensemble} {ds : List Deed}
    {r : Except LaunchFailure LaunchSummary × Ensemble} (h : LaunchCourse cast e ds r) :
    r.2 = { e with launched := true, slots := r.2.slots } := by
  cases h with
  | repeated h =>
    show e = { e with launched := true }
    rw [← h]
  | asserted _ _ _ => rfl
  | missing _ _ _ _ => rfl
  | aborted _ _ _ _ _ _ _ => rfl
  | completed _ _ _ _ _ _ _ => rfl

/-! ### What is asked along the way -/

/-- What is asked in order to hand an event to listeners. -/
def Op.Publishes : Op A → Prop
  | .call (.onEvent ..) _ | .enclosing _ | .beginDelivery _ | .endDelivery | .record _ => True
  | _ => False

/-- What is asked in a launch. -/
def Op.Launches : Op A → Prop
  | .call .. | .keep .. | .enclosing _ | .beginDelivery _ | .endDelivery | .record _ => True
  | _ => False

/-- What is asked in order to run the hooks of a phase. -/
def Op.CallsHooks (p : Phase) : Op A → Prop
  | .call (.hook _ p' _) _ => p' = p
  | .keep .. | .record _ => True
  | _ => False

/-- What is asked in order to prepare listeners. -/
def Op.Prepares : Op A → Prop
  | .call (.prepare _) _ | .record _ => True
  | _ => False

/-- What is asked once the shutdown hooks have run. -/
def Op.Dismisses : Op A → Prop
  | .cancel _ | .awaitCrew .. | .crewNames _ | .edit _ (.remove _) | .record _ => True
  | _ => False

/-- What is asked in order to wait for the end. -/
def Op.AwaitsEnd (request : TokenId) : Op A → Prop
  | .awaitTermination token | .awaitCancel token => token = request
  | .record _ => True
  | _ => False

/-- A quiet operation that can be answered. -/
def Op.IsPlain (op : Op A) : Prop := op.IsQuiet ∧ Nonempty op.Answer

section

variable {op : Op A}

theorem Op.Publishes.launches (h : op.Publishes) : op.Launches := by
  unfold Publishes at h
  split at h <;> trivial

theorem Op.Publishes.isPlain (h : op.Publishes) : op.IsPlain := by
  unfold Publishes at h
  split at h
  case h_6 => exact h.elim
  all_goals exact ⟨trivial, inferInstance⟩

theorem Op.Dismisses.isPlain (h : op.Dismisses) : op.IsPlain := by
  unfold Dismisses at h
  split at h
  case h_6 => exact h.elim
  all_goals exact ⟨trivial, inferInstance⟩

theorem Op.AwaitsEnd.isPlain {request : TokenId} (h : op.AwaitsEnd request) : op.IsPlain := by
  unfold AwaitsEnd at h
  split at h
  case h_4 => exact h.elim
  all_goals exact ⟨trivial, inferInstance⟩

theorem Op.Launches.nonempty (h : op.Launches) : Nonempty op.Answer := by
  unfold Launches at h
  split at h
  case h_7 => exact h.elim
  all_goals infer_instance

theorem Op.CallsHooks.launches {p : Phase} (h : op.CallsHooks p) : op.Launches := by
  unfold CallsHooks at h
  split at h <;> trivial

theorem Op.Prepares.launches (h : op.Prepares) : op.Launches := by
  unfold Prepares at h
  split at h <;> trivial

end

namespace Bus

variable (cast : Cast) (bus : BusId) (event : Event)

theorem deliverTo_publishes (set : List ListenerId) (d : Delivery) :
    (deliverTo (A := A) cast bus event set d).Only Op.Publishes := by
  induction set generalizing d with
  | nil => exact Program.only_pure d
  | cons l rest ih =>
    refine Program.only_bind (Program.only_ask trivial) fun o => ?_
    rcases o with f | ⟨⟩
    · exact Program.only_bind (Program.only_ask trivial) fun _ => ih _
    · exact ih _

theorem publish_publishes (targets : Option TargetSet) :
    (publish (A := A) cast bus event targets).Only Op.Publishes := by
  refine Program.only_bind (Program.only_ask trivial) fun held => ?_
  cases held with
  | some set => exact deliverTo_publishes ..
  | none =>
    refine Program.only_bind (Program.only_ask trivial) fun set => ?_
    refine Program.only_bind (deliverTo_publishes ..) fun d => ?_
    refine Program.only_bind (Program.only_ask trivial) fun _ => ?_
    refine Program.only_bind ?_ fun _ => Program.only_pure d
    unfold noteUnmatched
    split
    · split
      · exact Program.only_ask trivial
      · exact Program.only_pure ()
    · exact Program.only_pure ()

theorem only_publish (targets : Option TargetSet) :
    (publish (A := A) cast bus event targets).Only Op.IsPlain :=
  (publish_publishes ..).mono fun _ h => h.isPlain

theorem unregister_dismisses (l : ListenerId) :
    (unregister (A := A) cast bus l).Only Op.Dismisses := by
  refine Program.only_bind (Program.only_ask trivial) fun changed => ?_
  cases changed with
  | true => exact Program.only_bind (Program.only_ask trivial) fun _ => Program.only_pure _
  | false => exact Program.only_pure _

end Bus

namespace Ensemble

variable {cast : Cast} {name : String} {e : Ensemble}

theorem announceFault_publishes (bus : BusId) (module : String) (p : Phase) (f : HookFailure)
    (escalated : Bool) : (announceFault (A := A) cast bus module p f escalated).Only Op.Publishes :=
  Program.only_bind (Bus.publish_publishes ..) fun _ => Program.only_pure ()

theorem only_announceFault (bus : BusId) (module : String) (p : Phase) (f : HookFailure)
    (escalated : Bool) : (announceFault (A := A) cast bus module p f escalated).Only Op.IsPlain :=
  (announceFault_publishes ..).mono fun _ h => h.isPlain

theorem unregisterAll_dismisses (bus : BusId) (ls : List ListenerId) :
    (unregisterAll (A := A) cast bus ls).Only Op.Dismisses := by
  induction ls with
  | nil => exact Program.only_pure ()
  | cons l rest ih => exact Program.only_bind (Bus.unregister_dismisses ..) fun _ => ih

end Ensemble

theorem Crew.dissolve_dismisses (crew : CrewId) (grace : Duration) :
    (dissolve (A := A) crew grace).Only Op.Dismisses := by
  refine Program.only_bind (Program.only_ask trivial) fun empty => ?_
  cases empty with
  | true => exact Program.only_pure _
  | false =>
    refine Program.only_bind (Program.only_ask trivial) fun stuck => ?_
    exact Program.only_bind (Program.only_ask trivial) fun _ => Program.only_pure _

/-- A run of something quiet and then of the rest of a program. -/
theorem Program.Run.of_quiet_bind {α β : Type} {p : Program A α} {f : α → Program A β}
    {tr : List (Exchange A)} {b : β} (hp : p.Only Op.IsPlain) (h : Run (p >>= f) tr b) :
    ∃ a rest, deeds tr = deeds rest ∧ Run (f a) rest b := by
  obtain ⟨first, a, rest, rfl, hfirst, hrest⟩ := run_bind_iff.1 h
  have hquiet : deeds first = [] := hfirst.deeds_of_quiet (hp.mono fun _ h => h.1)
  exact ⟨a, rest, by rw [deeds_append, hquiet, List.nil_append], hrest⟩

/-! ### Launches -/

namespace Ensemble

variable {cast : Cast} {name : String} {e : Ensemble} {tr : List (Exchange A)}

theorem assertFrom_course {passed rest : List Slot} {P : Progress}
    (h : Program.Run (assertFrom cast name e passed rest) tr P) :
    AssertionCourse cast passed rest (deeds tr) P := by
  induction rest generalizing passed tr with
  | nil =>
    obtain ⟨rfl, rfl⟩ := Program.run_pure_iff.1 h
    exact .done passed
  | cons s rest ih =>
    rw [assertFrom] at h
    obtain ⟨o, tr, rfl, hcalled⟩ := Program.run_ask_bind_iff.1 h
    rcases o with f | ⟨⟩
    · obtain ⟨rfl, rfl⟩ := Program.run_pure_iff.1 hcalled
      exact .failed passed rest s f
    · obtain ⟨_, tr, rfl, hrest⟩ := Program.run_ask_bind_iff.1 hcalled
      exact .held (ih hrest)

theorem prepareAll_course {limit : Option Duration} {ls : List ListenerId}
    (h : Program.Run (prepareAll cast limit ls) tr ()) : PreparationCourse ls (deeds tr) := by
  induction ls generalizing tr with
  | nil =>
    obtain ⟨rfl, _⟩ := Program.run_pure_iff.1 h
    exact .done
  | cons l rest ih =>
    rw [prepareAll] at h
    obtain ⟨o, tr, rfl, hcalled⟩ := Program.run_ask_bind_iff.1 h
    rcases o with f | ⟨⟩
    · obtain ⟨_, tr, rfl, hrest⟩ := Program.run_ask_bind_iff.1 hcalled
      show PreparationCourse (l :: rest) (.called _ _ :: deeds tr)
      exact .prepared l (.error f) (ih hrest)
    · exact .prepared l (.ok ()) (ih hcalled)

theorem runSlots_course {p : Phase} {ran : Nat} {passed rest : List Slot} {faults : List Fault}
    {P : Progress} (h : Program.Run (runSlots cast name e p ran passed faults rest) tr P) :
    PhaseCourse cast p passed faults rest (deeds tr) P := by
  induction rest generalizing ran passed faults tr with
  | nil =>
    rw [runSlots] at h
    obtain ⟨_, tr, rfl, hemit⟩ := Program.run_ask_bind_iff.1 h
    obtain ⟨_, tr', hquiet, hend⟩ := hemit.of_quiet_bind (Bus.only_publish ..)
    obtain ⟨rfl, rfl⟩ := Program.run_pure_iff.1 hend
    show PhaseCourse cast p passed faults [] (deeds tr) _
    rw [hquiet]
    exact .done passed faults
  | cons s rest ih =>
    rw [runSlots] at h
    by_cases hactive : s.active = true
    case neg =>
      rw [if_pos (by simpa using hactive)] at h
      exact .absent (by simpa using hactive) (ih h)
    rw [if_neg (by simpa using hactive)] at h
    obtain ⟨o, tr, rfl, hcalled⟩ := Program.run_ask_bind_iff.1 h
    rcases o with f | ⟨⟩
    case ok =>
      obtain ⟨_, tr, rfl, hrest⟩ := Program.run_ask_bind_iff.1 hcalled
      exact .ran hactive (ih hrest)
    by_cases hphase : p.abortsLaunch = true
    · by_cases hmandatory : s.info.mandatory = true
      · simp only [hphase, hmandatory, Bool.and_self, if_true] at hcalled
        obtain ⟨_, tr, rfl, hannounce⟩ := Program.run_ask_bind_iff.1 hcalled
        obtain ⟨_, tr', hquiet, hend⟩ := hannounce.of_quiet_bind (only_announceFault ..)
        obtain ⟨rfl, rfl⟩ := Program.run_pure_iff.1 hend
        show PhaseCourse cast p passed faults (s :: rest) (.called _ _ :: deeds tr) _
        rw [hquiet]
        exact .aborted passed rest faults f hactive hphase hmandatory
      · simp only [hphase, hmandatory, Bool.and_false, if_true, Bool.false_eq_true, if_false]
          at hcalled
        obtain ⟨_, tr, rfl, hrecord⟩ := Program.run_ask_bind_iff.1 hcalled
        obtain ⟨_, tr, rfl, hannounce⟩ := Program.run_ask_bind_iff.1 hrecord
        obtain ⟨_, tr', hquiet, hrest⟩ := hannounce.of_quiet_bind (only_announceFault ..)
        show PhaseCourse cast p passed faults (s :: rest)
          (.called _ _ :: .stored _ :: deeds tr) _
        rw [hquiet]
        exact .leftOut f hactive hphase (by simpa using hmandatory) (ih hrest)
    · simp only [hphase, Bool.false_and, Bool.false_eq_true, if_false] at hcalled
      obtain ⟨_, tr, rfl, hrecord⟩ := Program.run_ask_bind_iff.1 hcalled
      obtain ⟨_, tr, rfl, hannounce⟩ := Program.run_ask_bind_iff.1 hrecord
      obtain ⟨_, tr', hquiet, hrest⟩ := hannounce.of_quiet_bind (only_announceFault ..)
      show PhaseCourse cast p passed faults (s :: rest)
        (.called _ _ :: .stored _ :: deeds tr) _
      rw [hquiet]
      exact .noted f hactive (by simpa using hphase) (ih hrest)

theorem runPhases_course {slots : List Slot} {faults : List Fault} {ps : List Phase} {P : Progress}
    (h : Program.Run (runPhases cast name e slots faults ps) tr P) :
    SequenceCourse cast slots faults ps (deeds tr) P := by
  induction ps generalizing slots faults tr with
  | nil =>
    obtain ⟨rfl, rfl⟩ := Program.run_pure_iff.1 h
    exact .done slots faults
  | cons p rest ih =>
    rw [runPhases] at h
    obtain ⟨_, tr, rfl, hstart⟩ := Program.run_ask_bind_iff.1 h
    obtain ⟨tr, Q, tr', rfl, hphase, hrest⟩ := Program.run_bind_iff.1 hstart
    have hcourse := runSlots_course hphase
    show SequenceCourse cast slots faults (p :: rest) (deeds (tr ++ tr')) P
    rw [deeds_append]
    by_cases haborted : Q.aborted.isSome = true
    · rw [if_pos haborted] at hrest
      obtain ⟨rfl, rfl⟩ := Program.run_pure_iff.1 hrest
      rw [deeds_nil, List.append_nil]
      exact .aborted hcourse haborted
    · rw [if_neg haborted] at hrest
      exact .next hcourse (by simpa using haborted) (ih hrest)

/-- Every run of a launch follows the course of a launch. -/
theorem launch_course {r : Except LaunchFailure LaunchSummary × Ensemble}
    (h : Program.Run (e.launch cast name) tr r) : LaunchCourse cast e (deeds tr) r := by
  rw [launch] at h
  by_cases hlaunched : e.launched = true
  · rw [if_pos hlaunched] at h
    obtain ⟨rfl, rfl⟩ := Program.run_pure_iff.1 h
    exact .repeated hlaunched
  rw [if_neg hlaunched] at h
  have hfirst : e.launched = false := by simpa using hlaunched
  obtain ⟨_, tr, rfl, hstart⟩ := Program.run_ask_bind_iff.1 h
  obtain ⟨tr, P, tr', rfl, hassert, hasserted⟩ := Program.run_bind_iff.1 hstart
  have hassertions := assertFrom_course hassert
  show LaunchCourse cast e (.stored e.slots :: deeds (tr ++ tr')) r
  rw [deeds_append]
  cases haborted : P.aborted with
  | some f =>
    simp only [haborted] at hasserted
    obtain ⟨rfl, rfl⟩ := Program.run_pure_iff.1 hasserted
    rw [deeds_nil, List.append_nil]
    exact .asserted hfirst hassertions haborted
  | none =>
    simp only [haborted] at hasserted
    cases hmissing : ({ e with slots := P.slots } : Ensemble).missingKind? with
    | some k =>
      have hmissing' : ({ e with slots := P.slots, launched := true } : Ensemble).missingKind?
          = some k := hmissing
      simp only [hmissing'] at hasserted
      obtain ⟨rfl, rfl⟩ := Program.run_pure_iff.1 hasserted
      rw [deeds_nil, List.append_nil]
      exact .missing hfirst hassertions haborted hmissing
    | none =>
      have hmissing' : ({ e with slots := P.slots, launched := true } : Ensemble).missingKind?
          = none := hmissing
      simp only [hmissing'] at hasserted
      obtain ⟨t, ⟨⟩, t', rfl, hprepare, hprepared⟩ := Program.run_bind_iff.1 hasserted
      obtain ⟨t₁, Q, t₂, rfl, hphases, hend⟩ := Program.run_bind_iff.1 hprepared
      have hpreparations := prepareAll_course hprepare
      have hsequence := runPhases_course hphases
      rw [deeds_append, deeds_append, ← List.append_assoc, ← List.append_assoc,
        ← List.cons_append, ← List.cons_append]
      cases hQ : Q.aborted with
      | some f =>
        simp only [hQ] at hend
        obtain ⟨rfl, rfl⟩ := Program.run_pure_iff.1 hend
        rw [deeds_nil, List.append_nil]
        exact .aborted hfirst hassertions haborted hmissing hpreparations hsequence hQ
      | none =>
        simp only [hQ] at hend
        obtain ⟨_, t₃, rfl, hreturn⟩ := Program.run_ask_bind_iff.1 hend
        obtain ⟨rfl, rfl⟩ := Program.run_pure_iff.1 hreturn
        show LaunchCourse cast e (_ ++ []) _
        rw [List.append_nil]
        exact .completed hfirst hassertions haborted hmissing hpreparations hsequence hQ

/-! ### Shutdowns -/

/-- Tells the bus that the shutdown hooks have run, if any have. -/
def announceClosing (cast : Cast) (bus : BusId) (ran : Nat) : Program A Unit := do
  if 0 < ran then
    let _ ← Bus.emit cast bus (.phaseCompleted .shutdown ran)

/-- What is left of a shutdown once the workers have been waited for. -/
def leave (cast : Cast) (e : Ensemble) (failures : List Fault) (stuck : List String) :
    Program A (ShutdownSummary × Ensemble) := do
  unregisterAll cast e.bus e.modules
  unregisterAll cast e.bus e.listeners
  .ask (.record ⟨.info, Origin.orchestrator, "shutdown complete",
    [.number "failures" failures.length, .number "stuck" stuck.length]⟩)
  return (⟨failures, stuck⟩, e)

/-- What is left of a shutdown once the hooks have run and the bus has been told. -/
def dismiss (cast : Cast) (e : Ensemble) (failures : List Fault) :
    Program A (ShutdownSummary × Ensemble) := do
  .ask (.cancel e.runtime)
  let stuck ← Crew.dissolve e.crew e.config.grace
  leave cast e failures stuck

/-- A shutdown, part by part. -/
theorem shutdown_eq : e.shutdown (A := A) cast name = (do
    let c ← closeSlots cast name e e.shutdownPositions ⟨e.slots, 0, []⟩
    announceClosing cast e.bus c.ran
    dismiss cast { e with slots := c.slots } c.failures) := by
  unfold shutdown announceClosing
  refine congrArg _ (funext fun c => ?_)
  by_cases hran : 0 < c.ran
  · simp only [hran, if_true, bind_assoc]
    rfl
  · simp only [hran, if_false]
    rfl

theorem announceClosing_publishes (bus : BusId) (ran : Nat) :
    (announceClosing (A := A) cast bus ran).Only Op.Publishes := by
  unfold announceClosing
  split
  · exact Program.only_bind (Bus.publish_publishes ..) fun _ => Program.only_pure ()
  · exact Program.only_pure ()

theorem only_announceClosing (bus : BusId) (ran : Nat) :
    (announceClosing (A := A) cast bus ran).Only Op.IsPlain :=
  (announceClosing_publishes ..).mono fun _ h => h.isPlain

theorem dismiss_dismisses (failures : List Fault) :
    (dismiss (A := A) cast e failures).Only Op.Dismisses := by
  refine Program.only_bind (Program.only_ask trivial) fun _ => ?_
  refine Program.only_bind (Crew.dissolve_dismisses ..) fun stuck => ?_
  refine Program.only_bind (unregisterAll_dismisses ..) fun _ => ?_
  refine Program.only_bind (unregisterAll_dismisses ..) fun _ => ?_
  exact Program.only_bind (Program.only_ask trivial) fun _ => Program.only_pure _

theorem only_dismiss (failures : List Fault) :
    (dismiss (A := A) cast e failures).Only Op.IsPlain :=
  (dismiss_dismisses failures).mono fun _ h => h.isPlain

/-- Every run of a shutdown, part by part; after the hooks nothing is done with the modules any more. -/
theorem shutdown_parts {r : ShutdownSummary × Ensemble}
    (h : Program.Run (e.shutdown cast name) tr r) : ∃ hooks c announced dismissed,
      tr = hooks ++ (announced ++ dismissed) ∧ deeds tr = deeds hooks ∧
      Program.Run (closeSlots cast name e e.shutdownPositions ⟨e.slots, 0, []⟩) hooks c ∧
      Program.Run (announceClosing cast e.bus c.ran) announced () ∧
      Program.Run (dismiss cast { e with slots := c.slots } c.failures) dismissed r := by
  rw [shutdown_eq] at h
  obtain ⟨hooks, c, _, rfl, hclose, hannounced⟩ := Program.run_bind_iff.1 h
  obtain ⟨announced, ⟨⟩, dismissed, rfl, hannounce, hdismiss⟩ := Program.run_bind_iff.1 hannounced
  refine ⟨hooks, c, announced, dismissed, rfl, ?_, hclose, hannounce, hdismiss⟩
  have hquiet : deeds announced = [] :=
    hannounce.deeds_of_quiet ((only_announceClosing ..).mono fun _ h => h.1)
  have hquiet' : deeds dismissed = [] :=
    hdismiss.deeds_of_quiet ((only_dismiss _).mono fun _ h => h.1)
  rw [deeds_append, deeds_append, hquiet, hquiet', List.append_nil, List.append_nil]

/-- What is left of a shutdown once the hooks have run, part by part. -/
theorem dismiss_parts {failures : List Fault} {r : ShutdownSummary × Ensemble}
    (h : Program.Run (dismiss cast e failures) tr r) : ∃ waited stuck first rest last,
      tr = ⟨.cancel e.runtime, ()⟩ :: (waited ++ (first ++ (rest ++ [last]))) ∧
      Program.Run (Crew.dissolve e.crew e.config.grace) waited stuck ∧
      Program.Run (unregisterAll cast e.bus e.modules) first () ∧
      Program.Run (unregisterAll cast e.bus e.listeners) rest () ∧ r = (⟨failures, stuck⟩, e) := by
  obtain ⟨⟨⟩, _, rfl, hdissolve⟩ := Program.run_ask_bind_iff.1 h
  obtain ⟨waited, stuck, _, rfl, hwaited, hmodules⟩ := Program.run_bind_iff.1 hdissolve
  obtain ⟨first, ⟨⟩, _, rfl, hfirst, hlisteners⟩ := Program.run_bind_iff.1 hmodules
  obtain ⟨rest, ⟨⟩, _, rfl, hrest, hrecord⟩ := Program.run_bind_iff.1 hlisteners
  obtain ⟨⟨⟩, _, rfl, hend⟩ := Program.run_ask_bind_iff.1 hrecord
  obtain ⟨rfl, rfl⟩ := Program.run_pure_iff.1 hend
  exact ⟨waited, stuck, first, rest, _, rfl, hwaited, hfirst, hrest, rfl⟩

/-- Nothing is done with the modules any more, and the failures are reported. -/
theorem dismiss_run {failures : List Fault} {r : ShutdownSummary × Ensemble}
    (h : Program.Run (dismiss cast e failures) tr r) : ∃ stuck, r = (⟨failures, stuck⟩, e) := by
  obtain ⟨_, stuck, _, _, _, -, -, -, -, heq⟩ := dismiss_parts h
  exact ⟨stuck, heq⟩

theorem closeSlots_course {positions : List Nat} {c c' : Closing}
    (h : Program.Run (closeSlots cast name e positions c) tr c') :
    StoppingCourse cast positions c (deeds tr) c' := by
  induction positions generalizing c tr with
  | nil =>
    obtain ⟨rfl, rfl⟩ := Program.run_pure_iff.1 h
    exact .done c'
  | cons i rest ih =>
    rw [closeSlots] at h
    cases hslot : c.slots[i]? with
    | none =>
      simp only [hslot] at h
      exact .nobody hslot (ih h)
    | some s =>
      simp only [hslot] at h
      by_cases hdue : s.isDue = true
      case neg =>
        rw [if_pos (by simpa using hdue)] at h
        exact .idle hslot (by simpa using hdue) (ih h)
      rw [if_neg (by simpa using hdue)] at h
      obtain ⟨_, tr, rfl, hcall⟩ := Program.run_ask_bind_iff.1 h
      obtain ⟨o, tr, rfl, hkeep⟩ := Program.run_ask_bind_iff.1 hcall
      obtain ⟨_, tr, rfl, hkept⟩ := Program.run_ask_bind_iff.1 hkeep
      rcases o with f | ⟨⟩
      · obtain ⟨_, tr, rfl, hrest⟩ := Program.run_ask_bind_iff.1 hkept
        show StoppingCourse cast (i :: rest) c (.called _ _ :: .stored _ :: deeds tr) c'
        exact .stopped (.error f) hslot hdue (ih hrest)
      · show StoppingCourse cast (i :: rest) c (.called _ _ :: .stored _ :: deeds tr) c'
        refine .stopped (.ok ()) hslot hdue ?_
        rw [closingFault, List.append_nil]
        exact ih hkept

/-- Every run of a shutdown follows the course of a shutdown. -/
theorem shutdown_course {r : ShutdownSummary × Ensemble}
    (h : Program.Run (e.shutdown cast name) tr r) : ShutdownCourse cast e (deeds tr) r := by
  obtain ⟨hooks, c, announced, dismissed, -, hdeeds, hclose, -, hdismiss⟩ := shutdown_parts h
  obtain ⟨stuck, rfl⟩ := dismiss_run hdismiss
  rw [hdeeds]
  exact .closed stuck (closeSlots_course hclose)

/-! ### Serving -/

/-- A launch that must succeed is a launch with no fatal failure, if it comes to its end at all. -/
theorem mustLaunch_run {r : Except LaunchFailure LaunchSummary × Ensemble}
    (h : Program.Run (e.mustLaunch cast name) tr r) : Program.Run (e.launch cast name) tr r ∧
      ∀ f, r.1 = .error f → f.endsProcess = false := by
  rw [mustLaunch] at h
  obtain ⟨t, ⟨result, e'⟩, t', rfl, hrun, hend⟩ := Program.run_bind_iff.1 h
  rcases result with f | report
  · by_cases hfatal : f.endsProcess = true
    · simp only [hfatal, if_true] at hend
      obtain ⟨x, _⟩ := Program.run_ask_bind_iff.1 hend
      exact x.elim
    · simp only [hfatal] at hend
      obtain ⟨rfl, rfl⟩ := Program.run_pure_iff.1 hend
      rw [List.append_nil]
      exact ⟨hrun, fun f' hf => Except.error.inj hf ▸ Bool.eq_false_iff.2 hfatal⟩
  · obtain ⟨rfl, rfl⟩ := Program.run_pure_iff.1 hend
    rw [List.append_nil]
    exact ⟨hrun, nofun⟩

/-- To wait for the end is to wait for termination, and then for a request if the process cannot be told of
signals. -/
theorem awaitEnd_run {request : TokenId} {cause : Termination}
    (h : Program.Run (A := A) (awaitEnd request) tr cause) :
    (tr = [⟨.awaitTermination request, cause⟩] ∧ ∀ error, cause ≠ .unavailable error) ∨
      ∃ record error, cause = .unavailable error ∧
        tr = [⟨.awaitTermination request, cause⟩, ⟨.record record, ()⟩, ⟨.awaitCancel request, ()⟩] := by
  obtain ⟨cause', _, rfl, hafter⟩ := Program.run_ask_bind_iff.1 h
  cases cause' with
  | unavailable error =>
    obtain ⟨⟨⟩, _, rfl, hwait⟩ := Program.run_ask_bind_iff.1 hafter
    obtain ⟨⟨⟩, _, rfl, hend⟩ := Program.run_ask_bind_iff.1 hwait
    obtain ⟨rfl, rfl⟩ := Program.run_pure_iff.1 hend
    exact .inr ⟨_, error, rfl, rfl⟩
  | _ =>
    obtain ⟨rfl, rfl⟩ := Program.run_pure_iff.1 hafter
    exact .inl ⟨rfl, nofun⟩

/-- A wait for the end asks for nothing else. -/
theorem awaitEnd_awaitsEnd (request : TokenId) : (awaitEnd (A := A) request).Only (Op.AwaitsEnd request) := by
  refine Program.only_bind (Program.only_ask rfl) fun cause => ?_
  cases cause with
  | unavailable error =>
    refine Program.only_bind (Program.only_ask trivial) fun _ => ?_
    exact Program.only_bind (Program.only_ask rfl) fun _ => Program.only_pure _
  | _ => exact Program.only_pure _

/-- Every run of serving follows its course. -/
theorem serve_course {r : Except LaunchFailure ShutdownSummary × Ensemble}
    (h : Program.Run (e.serve cast name) tr r) : ∃ cause, ServeCourse cast name e tr cause r := by
  rw [serve] at h
  obtain ⟨launched, ⟨result, e₁⟩, _, rfl, hmust, hlaunched⟩ := Program.run_bind_iff.1 h
  obtain ⟨hlaunch, hnotFatal⟩ := mustLaunch_run hmust
  have hsame : e₁ = { e with launched := true, slots := e₁.slots } := (launch_course hlaunch).eq_with
  rcases result with f | report
  · obtain ⟨⟨⟩, _, rfl, hshutdown⟩ := Program.run_ask_bind_iff.1 hlaunched
    obtain ⟨closed, c, _, rfl, hclose, hend⟩ := Program.run_bind_iff.1 hshutdown
    obtain ⟨rfl, rfl⟩ := Program.run_pure_iff.1 hend
    rw [List.append_nil]
    exact ⟨none, .failed _ hlaunch (hnotFatal f rfl) hclose⟩
  · obtain ⟨waited, cause, _, rfl, hwait, hrecord⟩ := Program.run_bind_iff.1 hlaunched
    obtain ⟨⟨⟩, _, rfl, hannounce⟩ := Program.run_ask_bind_iff.1 hrecord
    obtain ⟨told, d, _, rfl, htold, hshutdown⟩ := Program.run_bind_iff.1 hannounce
    obtain ⟨closed, c, _, rfl, hclose, hend⟩ := Program.run_bind_iff.1 hshutdown
    obtain ⟨rfl, rfl⟩ := Program.run_pure_iff.1 hend
    have hbus : e₁.bus = e.bus := by rw [hsame]
    have hrequest : e₁.request = e.request := by rw [hsame]
    rw [hbus] at htold
    rw [hrequest] at hwait
    rw [List.append_nil]
    exact ⟨some cause, .ended _ hlaunch hwait htold hclose⟩

end Ensemble

/-- Serving is a launch, a wait in which nothing is done with the modules, and a shutdown. -/
theorem ServeCourse.parts {cast : Cast} {name : String} {e : Ensemble} {tr : List (Exchange A)}
    {cause : Option Termination} {r : Except LaunchFailure ShutdownSummary × Ensemble}
    (h : ServeCourse cast name e tr cause r) : ∃ t l t' t'' c, tr = t ++ (t' ++ t'') ∧
      Program.Run (e.launch cast name) t l ∧ deeds t' = [] ∧
      Program.Run (l.2.shutdown cast name) t'' c ∧ r.2 = c.2 := by
  cases h with
  | @failed launched closed _ _ _ record hlaunch _ hclose =>
    exact ⟨launched, _, [⟨.record record, ()⟩], closed, _, rfl, hlaunch, rfl, hclose, rfl⟩
  | @ended launched waited told closed _ _ _ _ _ record hlaunch hwait htold hclose =>
    refine ⟨launched, _, waited ++ ⟨.record record, ()⟩ :: told, closed, _, by simp, hlaunch, ?_, hclose, rfl⟩
    have hwaited : deeds waited = [] :=
      hwait.deeds_of_quiet ((Ensemble.awaitEnd_awaitsEnd _).mono fun _ h => h.isPlain.1)
    have htold' : deeds told = [] := htold.deeds_of_quiet ((Bus.only_publish ..).mono fun _ h => h.1)
    rw [deeds_append, hwaited]
    exact htold'

namespace Ensemble

variable {cast : Cast} {name : String} {e : Ensemble} {tr : List (Exchange A)}

/-! ### Everything that is asked can be answered -/

theorem assertFrom_callsHooks (passed rest : List Slot) :
    (assertFrom (A := A) cast name e passed rest).Only (Op.CallsHooks .assertion) := by
  induction rest generalizing passed with
  | nil => exact Program.only_pure _
  | cons s rest ih =>
    refine Program.only_bind (Program.only_ask rfl) fun o => ?_
    rcases o with f | ⟨⟩
    · exact Program.only_pure _
    · exact Program.only_bind (Program.only_ask trivial) fun _ => ih _

theorem prepareAll_prepares (limit : Option Duration) (ls : List ListenerId) :
    (prepareAll (A := A) cast limit ls).Only Op.Prepares := by
  induction ls with
  | nil => exact Program.only_pure ()
  | cons l rest ih =>
    refine Program.only_bind (Program.only_ask trivial) fun o => ?_
    rcases o with f | ⟨⟩
    · exact Program.only_bind (Program.only_ask trivial) fun _ => ih
    · exact ih

/-- A phase runs its hooks, and tells the bus. -/
theorem runSlots_only {P : Op A → Prop} {p : Phase} (hhooks : ∀ op : Op A, op.CallsHooks p → P op)
    (hpublishes : ∀ op : Op A, op.Publishes → P op) (ran : Nat) (passed : List Slot) (faults : List Fault)
    (rest : List Slot) : (runSlots (A := A) cast name e p ran passed faults rest).Only P := by
  induction rest generalizing ran passed faults with
  | nil =>
    refine Program.only_bind (Program.only_ask (hhooks _ trivial)) fun _ => ?_
    refine Program.only_bind ((Bus.publish_publishes ..).mono hpublishes) fun _ => ?_
    exact Program.only_pure _
  | cons s rest ih =>
    have hfault : ∀ f escalated, (announceFault (A := A) cast e.bus (cast.name s.module) p f
        escalated).Only P :=
      fun f escalated => (announceFault_publishes ..).mono hpublishes
    rw [runSlots]
    split
    · exact ih ..
    refine Program.only_bind (Program.only_ask (hhooks _ rfl)) fun o => ?_
    rcases o with f | ⟨⟩
    case ok => exact Program.only_bind (Program.only_ask (hhooks _ trivial)) fun _ => ih ..
    dsimp only
    split
    · refine Program.only_bind (Program.only_ask (hhooks _ trivial)) fun _ => ?_
      exact Program.only_bind (hfault ..) fun _ => Program.only_pure _
    · split
      · refine Program.only_bind (Program.only_ask (hhooks _ trivial)) fun _ => ?_
        refine Program.only_bind (Program.only_ask (hhooks _ trivial)) fun _ => ?_
        exact Program.only_bind (hfault ..) fun _ => ih ..
      · refine Program.only_bind (Program.only_ask (hhooks _ trivial)) fun _ => ?_
        refine Program.only_bind (Program.only_ask (hhooks _ trivial)) fun _ => ?_
        exact Program.only_bind (hfault ..) fun _ => ih ..

theorem runPhases_launches (slots : List Slot) (faults : List Fault) (ps : List Phase) :
    (runPhases (A := A) cast name e slots faults ps).Only Op.Launches := by
  induction ps generalizing slots faults with
  | nil => exact Program.only_pure _
  | cons p rest ih =>
    refine Program.only_bind (Program.only_ask trivial) fun _ => ?_
    refine Program.only_bind (runSlots_only (fun _ h => h.launches) (fun _ h => h.launches) ..) fun P => ?_
    split
    · exact Program.only_pure _
    · exact ih ..

/-- A launch changes no listeners, cancels nothing, and ends nothing. -/
theorem launch_launches : (e.launch (A := A) cast name).Only Op.Launches := by
  rw [launch]
  split
  · exact Program.only_pure _
  refine Program.only_bind (Program.only_ask trivial) fun _ => ?_
  refine Program.only_bind ((assertFrom_callsHooks ..).mono fun _ h => h.launches) fun P => ?_
  dsimp only
  split
  · exact Program.only_pure _
  split
  · exact Program.only_pure _
  refine Program.only_bind ((prepareAll_prepares ..).mono fun _ h => h.launches) fun _ => ?_
  refine Program.only_bind (runPhases_launches ..) fun Q => ?_
  split
  · exact Program.only_pure _
  · exact Program.only_bind (Program.only_ask trivial) fun _ => Program.only_pure _

/-- A launch asks only what can be answered. -/
theorem only_launch : (e.launch (A := A) cast name).Only fun op => Nonempty op.Answer :=
  launch_launches.mono fun _ h => h.nonempty

theorem closeSlots_callsHooks (positions : List Nat) (c : Closing) :
    (closeSlots (A := A) cast name e positions c).Only (Op.CallsHooks .shutdown) := by
  induction positions generalizing c with
  | nil => exact Program.only_pure _
  | cons i rest ih =>
    rw [closeSlots]
    split
    · exact ih _
    split
    · exact ih _
    refine Program.only_bind (Program.only_ask trivial) fun _ => ?_
    refine Program.only_bind (Program.only_ask rfl) fun o => ?_
    refine Program.only_bind (Program.only_ask trivial) fun _ => ?_
    rcases o with f | ⟨⟩
    · exact Program.only_bind (Program.only_ask trivial) fun _ => ih _
    · exact ih _

/-- A shutdown runs hooks, tells the bus, and dismisses everybody. -/
theorem shutdown_only {P : Op A → Prop} (hhooks : ∀ op : Op A, op.CallsHooks .shutdown → P op)
    (hpublishes : ∀ op : Op A, op.Publishes → P op) (hdismisses : ∀ op : Op A, op.Dismisses → P op) :
    (e.shutdown (A := A) cast name).Only P := by
  rw [shutdown_eq]
  refine Program.only_bind ((closeSlots_callsHooks ..).mono hhooks) fun c => ?_
  refine Program.only_bind ((announceClosing_publishes ..).mono hpublishes) fun _ => ?_
  exact (dismiss_dismisses _).mono hdismisses

/-- A shutdown asks only what can be answered. -/
theorem only_shutdown : (e.shutdown (A := A) cast name).Only fun op => Nonempty op.Answer :=
  shutdown_only (fun _ h => h.launches.nonempty) (fun _ h => h.isPlain.2) fun _ h => h.isPlain.2

end Ensemble

end Orchestra
