import Orchestra.Proofs.Announcing
import Orchestra.Proofs.LaunchVerdict
import Orchestra.Proofs.Stages

/-!
# What a launch tells and what it reports

The calls of a launch, the events that it tells the bus, the slots that it stores and its result are brought
about in different places of the phase loop.  They tell one story all the same.

* `callFault?`, `Fault.event` — the fault of a hook that fails, and what is told of it;
* `PhaseCourse.callees_of_done`, `PhaseCourse.faults_of_done`, `PhaseCourse.getLast?_stored` — whom a phase calls,
  what it reports, and which slots it stores last;
* `PhaseTold`, `runSlots_told` — what a phase tells of its calls;
* `Leg` — one phase of a launch, with the slots before and after it; `Connects` — phases one after another;
* `Leg.IsCompleted`, `Leg.IsAborted` — what has been called and told in a phase;
* `launch_tells` — what a launch tells is what has been called and what is reported.
-/

namespace Orchestra

variable {A : Application} {cast : Cast}

/-! ### Faults -/

/-- The fault that a call of a hook makes, if the hook fails. -/
def callFault? (cast : Cast) : Callee × Outcome → Option Fault
  | (.hook m p _, .error f) => some ⟨cast.name m, p, f, p.abortsLaunch⟩
  | _ => none

/-- The faults of calls, in order. -/
def callFaults (cast : Cast) (calls : List (Callee × Outcome)) : List Fault :=
  calls.filterMap (callFault? cast)

/-- What is told of a fault: the launch goes on. -/
def Fault.event (f : Fault) : Event := .moduleFaulted f.module f.phase f.failure.message false

@[simp] theorem callFaults_nil : callFaults cast [] = [] := rfl

@[simp] theorem callFaults_ok (c : Callee) (calls : List (Callee × Outcome)) :
    callFaults cast ((c, .ok ()) :: calls) = callFaults cast calls := by
  cases c <;> rfl

@[simp] theorem callFaults_error (s : Slot) (p : Phase) (f : HookFailure)
    (calls : List (Callee × Outcome)) : callFaults cast ((s.hook p, .error f) :: calls)
      = ⟨cast.name s.module, p, f, p.abortsLaunch⟩ :: callFaults cast calls := rfl

theorem callFaults_append (calls calls' : List (Callee × Outcome)) :
    callFaults cast (calls ++ calls') = callFaults cast calls ++ callFaults cast calls' :=
  List.filterMap_append

/-! ### One phase -/

section

variable {p : Phase} {passed rest : List Slot} {faults : List Fault} {ds : List Deed} {P : Progress}

/-- A phase that is not aborted calls the active modules in turn. -/
theorem PhaseCourse.callees_of_done (h : PhaseCourse cast p passed faults rest ds P)
    (hdone : P.aborted = none) :
    calleesOf ds = (rest.filter Slot.active).map fun s => s.hook p := by
  induction h with
  | done passed faults => rfl
  | absent hactive _ ih => simp [hactive, ih hdone]
  | ran hactive _ ih => simp [hactive, ih hdone]
  | aborted passed rest faults f _ _ _ => cases hdone
  | leftOut f hactive _ _ _ ih => simp [hactive, ih hdone]
  | noted f hactive _ _ ih => simp [hactive, ih hdone]

/-- In any case it calls them one after another. -/
theorem PhaseCourse.callees_prefix (h : PhaseCourse cast p passed faults rest ds P) :
    calleesOf ds <+: (rest.filter Slot.active).map fun s => s.hook p := by
  induction h with
  | done passed faults => exact List.nil_prefix
  | absent hactive _ ih => simpa [hactive] using ih
  | ran hactive _ ih => simpa [hactive] using ih
  | aborted passed rest faults f hactive _ _ => simp [hactive]
  | leftOut f hactive _ _ _ ih => simpa [hactive] using ih
  | noted f hactive _ _ ih => simpa [hactive] using ih

/-- It reports the hooks that have failed. -/
theorem PhaseCourse.faults_of_done (h : PhaseCourse cast p passed faults rest ds P)
    (hdone : P.aborted = none) : P.faults = faults ++ callFaults cast (callsOf ds) := by
  induction h with
  | done passed faults => simp
  | absent _ _ ih => exact ih hdone
  | ran _ _ ih => simp [ih hdone]
  | aborted passed rest faults f _ _ _ => cases hdone
  | leftOut f _ hphase _ _ ih => simp [ih hdone, hphase]
  | noted f _ hphase _ ih => simp [ih hdone, hphase]

/-- A phase stores the slots after every change. -/
theorem PhaseCourse.getLast?_stored (h : PhaseCourse cast p passed faults rest ds P) :
    ((passed ++ rest) :: storedIn ds).getLast? = some P.slots := by
  induction h with
  | done passed faults => simp [storedIn]
  | absent _ _ ih => rwa [List.append_assoc, List.singleton_append] at ih
  | aborted passed rest faults f _ _ _ => rfl
  | ran _ _ ih | leftOut _ _ _ _ _ ih | noted _ _ _ _ ih =>
    rw [List.append_assoc, List.singleton_append] at ih
    exact (List.getLast?_cons_cons ..).trans ih

end

/-- What a phase over slots tells of its calls: of each hook that fails, and in the end that the phase is
completed, with the number of modules that are active then, or that the last of the failures aborts the launch. -/
inductive PhaseTold (cast : Cast) (p : Phase) (P : Progress) (slots : List Slot) :
    List (Callee × Outcome) → List Event → Prop where
  | completed (calls : List (Callee × Outcome)) : P.aborted = none →
      PhaseTold cast p P slots calls
        ((callFaults cast calls).map Fault.event ++ [.phaseCompleted p (P.slots.countP Slot.active)])
  | aborted (calls : List (Callee × Outcome)) {s : Slot} {f : HookFailure} :
      P.aborted = some (.sequenceAborted (cast.name s.module) p f) → s ∈ slots →
      s.info.mandatory = true → p.abortsLaunch = true →
      PhaseTold cast p P slots (calls ++ [(s.hook p, .error f)])
        ((callFaults cast calls).map Fault.event
          ++ [.moduleFaulted (cast.name s.module) p f.message true])

section

variable {p : Phase} {P : Progress} {slots : List Slot} {calls : List (Callee × Outcome)}
  {events : List Event}

theorem PhaseTold.absent (h : PhaseTold cast p P slots calls events) (s : Slot) :
    PhaseTold cast p P (s :: slots) calls events := by
  cases h with
  | completed _ hdone => exact .completed _ hdone
  | aborted calls hP hs hmandatory hphase =>
    exact .aborted calls hP (List.mem_cons_of_mem _ hs) hmandatory hphase

/-- One more call, and what is told of it, before the rest of the phase. -/
theorem PhaseTold.called (h : PhaseTold cast p P slots calls events) (s : Slot)
    (c : Callee × Outcome) : PhaseTold cast p P (s :: slots) (c :: calls)
      ((callFaults cast [c]).map Fault.event ++ events) := by
  have hfaults : ∀ calls, callFaults cast (c :: calls) = callFaults cast [c] ++ callFaults cast calls :=
    callFaults_append [c]
  cases h.absent s with
  | completed _ hdone =>
    rw [← List.append_assoc, ← List.map_append, ← hfaults]
    exact .completed _ hdone
  | aborted calls hP hs hmandatory hphase =>
    rw [← List.append_assoc, ← List.map_append, ← hfaults, ← List.cons_append]
    exact .aborted _ hP hs hmandatory hphase

end

/-! ### What a phase tells -/

namespace Ensemble

variable {name : String} {e : Ensemble} {tr : List (Exchange A)}

theorem emit_told {bus : BusId} {event : Event} {d : Delivery}
    (h : Program.Run (Bus.emit cast bus event) tr d) :
    Announced cast bus tr [event] ∧ deeds tr = [] := by
  have htold : Announced cast bus (tr ++ []) [event] := .published h .nil
  rw [List.append_nil] at htold
  exact ⟨htold, h.deeds_of_quiet ((Bus.only_publish ..).mono fun _ h => h.1)⟩

theorem announceFault_told {bus : BusId} {module : String} {p : Phase} {f : HookFailure}
    {escalated : Bool} {x : Unit}
    (h : Program.Run (announceFault cast bus module p f escalated) tr x) :
    Announced cast bus tr [.moduleFaulted module p f.message escalated] ∧ deeds tr = [] := by
  obtain ⟨first, d, rest, rfl, hemit, hend⟩ := Program.run_bind_iff.1 h
  obtain ⟨rfl, -⟩ := Program.run_pure_iff.1 hend
  rw [List.append_nil]
  exact emit_told hemit

/-- **What a phase tells is what has been called in it.**  The number that is told counts the modules that are
active in the end: those that have run the phase are counted one after another. -/
theorem runSlots_told {p : Phase} {ran : Nat} {passed rest : List Slot} {faults : List Fault}
    {P : Progress} (h : Program.Run (runSlots cast name e p ran passed faults rest) tr P)
    (hran : ran = passed.countP Slot.active) :
    ∃ events, PhaseTold cast p P rest (callsOf (deeds tr)) events ∧ Announced cast e.bus tr events := by
  induction rest generalizing ran passed faults tr with
  | nil =>
    rw [runSlots] at h
    obtain ⟨_, tr, rfl, hemit⟩ := Program.run_ask_bind_iff.1 h
    obtain ⟨first, d, rest, rfl, htold, hend⟩ := Program.run_bind_iff.1 hemit
    obtain ⟨rfl, rfl⟩ := Program.run_pure_iff.1 hend
    obtain ⟨hannounced, hquiet⟩ := emit_told htold
    rw [hran, ← List.append_nil first] at hannounced
    refine ⟨[.phaseCompleted p (passed.countP Slot.active)], ?_, .silent trivial hannounced⟩
    show PhaseTold cast p _ [] (callsOf (deeds (first ++ []))) _
    rw [List.append_nil, hquiet]
    exact .completed [] rfl
  | cons s rest ih =>
    -- The slot goes on as another, which is counted if it is active.
    have hcounted : ∀ t : Slot, t.active = true → ran + 1 = (passed ++ [t]).countP Slot.active := by
      intro t ht
      rw [List.countP_append, List.countP_singleton, hran, if_pos ht]
    have hskipped : ∀ t : Slot, t.active = false → ran = (passed ++ [t]).countP Slot.active := by
      intro t ht
      rw [List.countP_append, List.countP_singleton, hran, ht]
      rfl
    rw [runSlots] at h
    by_cases hactive : s.active = true
    case neg =>
      rw [if_pos (by simpa using hactive)] at h
      obtain ⟨events, hevents, htold⟩ := ih h (hskipped s (by simpa using hactive))
      exact ⟨events, hevents.absent s, htold⟩
    rw [if_neg (by simpa using hactive)] at h
    obtain ⟨o, tr, rfl, hcalled⟩ := Program.run_ask_bind_iff.1 h
    rcases o with f | ⟨⟩
    case ok =>
      obtain ⟨_, tr, rfl, hrest⟩ := Program.run_ask_bind_iff.1 hcalled
      obtain ⟨events, hevents, htold⟩ := ih hrest (hcounted (s.reached p) hactive)
      exact ⟨events, hevents.called s (s.hook p, .ok ()), .silent trivial (.silent trivial htold)⟩
    by_cases hphase : p.abortsLaunch = true
    · by_cases hmandatory : s.info.mandatory = true
      · simp only [hphase, hmandatory, Bool.and_self, if_true] at hcalled
        obtain ⟨_, tr, rfl, hannounce⟩ := Program.run_ask_bind_iff.1 hcalled
        obtain ⟨first, _, rest', rfl, hannounced, hend⟩ := Program.run_bind_iff.1 hannounce
        obtain ⟨rfl, rfl⟩ := Program.run_pure_iff.1 hend
        obtain ⟨htold, hquiet⟩ := announceFault_told hannounced
        rw [← List.append_nil first] at htold
        refine ⟨_, ?_, .silent trivial (.silent trivial htold)⟩
        show PhaseTold cast p _ (s :: rest) ((s.hook p, .error f) :: callsOf (deeds (first ++ []))) _
        rw [List.append_nil, hquiet]
        exact .aborted [] rfl List.mem_cons_self hmandatory hphase
      · simp only [hphase, hmandatory, Bool.and_false, if_true, Bool.false_eq_true, if_false]
          at hcalled
        obtain ⟨_, tr, rfl, hrecord⟩ := Program.run_ask_bind_iff.1 hcalled
        obtain ⟨_, tr, rfl, hannounce⟩ := Program.run_ask_bind_iff.1 hrecord
        obtain ⟨first, _, rest', rfl, hannounced, hrest⟩ := Program.run_bind_iff.1 hannounce
        obtain ⟨htold, hquiet⟩ := announceFault_told hannounced
        obtain ⟨events, hevents, htold'⟩ := ih hrest (hskipped s.leftOut rfl)
        refine ⟨_, ?_, .silent trivial (.silent trivial (.silent trivial (htold.append htold')))⟩
        show PhaseTold cast p P (s :: rest)
          ((s.hook p, .error f) :: callsOf (deeds (first ++ rest'))) _
        rw [deeds_append, hquiet, List.nil_append]
        exact hevents.called s (s.hook p, .error f)
    · simp only [hphase, Bool.false_and, Bool.false_eq_true, if_false] at hcalled
      obtain ⟨_, tr, rfl, hrecord⟩ := Program.run_ask_bind_iff.1 hcalled
      obtain ⟨_, tr, rfl, hannounce⟩ := Program.run_ask_bind_iff.1 hrecord
      obtain ⟨first, _, rest', rfl, hannounced, hrest⟩ := Program.run_bind_iff.1 hannounce
      obtain ⟨htold, hquiet⟩ := announceFault_told hannounced
      obtain ⟨events, hevents, htold'⟩ := ih hrest (hcounted (s.reached p) hactive)
      refine ⟨_, ?_, .silent trivial (.silent trivial (.silent trivial (htold.append htold')))⟩
      show PhaseTold cast p P (s :: rest)
        ((s.hook p, .error f) :: callsOf (deeds (first ++ rest'))) _
      rw [deeds_append, hquiet, List.nil_append]
      exact hevents.called s (s.hook p, .error f)

end Ensemble

/-! ### Phases one after another -/

/-- One phase of a launch: what is exchanged in it, and the slots before and after it. -/
structure Leg (A : Application) where
  phase : Phase
  before : List Slot
  exchanges : List (Exchange A)
  after : List Slot

namespace Leg

/-- The calls of a phase. -/
def calls (leg : Leg A) : List (Callee × Outcome) := callsOf (deeds leg.exchanges)

/-- The faults of a phase: the hooks that have failed, in the order in which they were called. -/
def faults (cast : Cast) (leg : Leg A) : List Fault := callFaults cast leg.calls

/-- What is told of a phase that is completed: its faults, and then how many modules are still active. -/
def events (cast : Cast) (leg : Leg A) : List Event :=
  (leg.faults cast).map Fault.event ++ [.phaseCompleted leg.phase (leg.after.countP Slot.active)]

/-- A phase has been completed. -/
structure IsCompleted (cast : Cast) (bus : BusId) (leg : Leg A) : Prop where
  /-- The hooks of the active modules have been called in turn. -/
  called : leg.calls.map Prod.fst = (leg.before.filter Slot.active).map fun s => s.hook leg.phase
  /-- Nothing else has been told. -/
  told : Announced cast bus leg.exchanges (leg.events cast)
  /-- The slots after the phase are those that everybody can see. -/
  stored : (leg.before :: storedIn (deeds leg.exchanges)).getLast? = some leg.after

/-- What is told of a phase that the last of its calls aborts: the faults before, and that call. -/
def lastEvents (cast : Cast) (leg : Leg A) (m : String) (f : HookFailure) : List Event :=
  (callFaults cast leg.calls.dropLast).map Fault.event ++ [.moduleFaulted m leg.phase f.message true]

/-- A phase has been aborted by the last of its calls, the hook of a mandatory module. -/
structure IsAborted (cast : Cast) (bus : BusId) (m : String) (f : HookFailure) (leg : Leg A) : Prop where
  called : leg.calls.map Prod.fst <+: (leg.before.filter Slot.active).map fun s => s.hook leg.phase
  last : leg.phase.abortsLaunch = true ∧ ∃ s ∈ leg.before, cast.name s.module = m ∧
    s.info.mandatory = true ∧ leg.calls.getLast? = some (s.hook leg.phase, .error f)
  told : Announced cast bus leg.exchanges (leg.lastEvents cast m f)
  stored : (leg.before :: storedIn (deeds leg.exchanges)).getLast? = some leg.after

end Leg

/-- Phases lead from slots to slots, each from those that the one before has left. -/
def Connects : List Slot → List (Leg A) → List Slot → Prop
  | slots, [], slots' => slots = slots'
  | slots, leg :: rest, slots' => leg.before = slots ∧ Connects leg.after rest slots'

/-- What phases that have been completed have told, one after another. -/
theorem announced_legs {bus : BusId} {legs : List (Leg A)} (h : ∀ leg ∈ legs, leg.IsCompleted cast bus) :
    Announced cast bus (legs.flatMap Leg.exchanges) (legs.flatMap (Leg.events cast)) := by
  induction legs with
  | nil => exact .nil
  | cons leg rest ih =>
    exact (h leg List.mem_cons_self).told.append (ih fun leg' hleg' => h leg' (List.mem_cons_of_mem _ hleg'))

section

variable {name : String} {e : Ensemble} {tr : List (Exchange A)} {slots : List Slot} {faults : List Fault}

/-- A phase, with the record that it starts. -/
theorem Ensemble.leg_told {p : Phase} {P : Progress} (record : Record)
    (h : Program.Run (runSlots cast name e p 0 [] faults slots) tr P) :
    (P.aborted = none →
      (⟨p, slots, ⟨.record record, ()⟩ :: tr, P.slots⟩ : Leg A).IsCompleted cast e.bus) ∧
    ∀ failure, P.aborted = some failure → ∃ m f, failure = .sequenceAborted m p f ∧
      (⟨p, slots, ⟨.record record, ()⟩ :: tr, P.slots⟩ : Leg A).IsAborted cast e.bus m f := by
  have hcourse := runSlots_course h
  obtain ⟨events, hevents, htold⟩ := runSlots_told h rfl
  generalize hcalls : callsOf (deeds tr) = calls at hevents
  cases hevents with
  | completed _ hdone =>
    subst hcalls
    refine ⟨fun _ => ⟨hcourse.callees_of_done hdone, .silent trivial htold, hcourse.getLast?_stored⟩, ?_⟩
    intro failure hP
    cases hdone.symm.trans hP
  | @aborted calls s f hP hs hmandatory hphase =>
    refine ⟨fun hdone => (nomatch hdone.symm.trans hP), fun failure hfailure => ?_⟩
    refine ⟨cast.name s.module, f, Option.some.inj (hfailure.symm.trans hP), hcourse.callees_prefix,
      ⟨hphase, s, hs, rfl, hmandatory, ?_⟩, ?_, hcourse.getLast?_stored⟩
    · show (callsOf (deeds tr)).getLast? = _
      rw [hcalls, List.getLast?_concat]
    · show Announced cast e.bus _ ((callFaults cast (callsOf (deeds tr)).dropLast).map Fault.event ++ _)
      rw [hcalls, List.dropLast_concat]
      exact .silent trivial htold

/-- Phases in sequence: each is completed, unless one aborts the launch, which is the last. -/
theorem Ensemble.runPhases_told {ps : List Phase} {P : Progress}
    (h : Program.Run (runPhases cast name e slots faults ps) tr P) :
    (P.aborted = none ∧ ∃ legs : List (Leg A), tr = legs.flatMap Leg.exchanges ∧
      legs.map Leg.phase = ps ∧ Connects slots legs P.slots ∧
      (∀ leg ∈ legs, leg.IsCompleted cast e.bus) ∧ P.faults = faults ++ legs.flatMap (Leg.faults cast)) ∨
    ∃ (legs : List (Leg A)) (leg : Leg A) (rest : List Phase) (m : String) (f : HookFailure),
      P.aborted = some (.sequenceAborted m leg.phase f) ∧
      tr = legs.flatMap Leg.exchanges ++ leg.exchanges ∧ legs.map Leg.phase ++ leg.phase :: rest = ps ∧
      Connects slots (legs ++ [leg]) P.slots ∧ (∀ leg ∈ legs, leg.IsCompleted cast e.bus) ∧
      leg.IsAborted cast e.bus m f := by
  induction ps generalizing slots faults tr with
  | nil =>
    obtain ⟨rfl, rfl⟩ := Program.run_pure_iff.1 h
    exact .inl ⟨rfl, [], rfl, rfl, rfl, nofun, (List.append_nil _).symm⟩
  | cons p ps ih =>
    rw [runPhases] at h
    obtain ⟨⟨⟩, tr, rfl, hstart⟩ := Program.run_ask_bind_iff.1 h
    obtain ⟨tr, Q, tr', rfl, hphase, hrest⟩ := Program.run_bind_iff.1 hstart
    obtain ⟨hcompleted, haborted⟩ := leg_told _ hphase
    cases hQ : Q.aborted with
    | some failure =>
      rw [if_pos (by simp [hQ])] at hrest
      obtain ⟨rfl, rfl⟩ := Program.run_pure_iff.1 hrest
      rw [List.append_nil]
      obtain ⟨m, f, rfl, hlast⟩ := haborted failure hQ
      exact .inr ⟨[], ⟨p, slots, _, P.slots⟩, ps, m, f, hQ, rfl, rfl, ⟨rfl, rfl⟩, nofun, hlast⟩
    | none =>
      rw [if_neg (by simp [hQ])] at hrest
      rcases ih hrest with ⟨hP, legs, rfl, hphases, hconnects, hall, hfaults⟩ |
        ⟨legs, leg, rest, m, f, hP, rfl, hphases, hconnects, hall, hlast⟩
      · refine .inl ⟨hP, _ :: legs, rfl, congrArg _ hphases, ⟨rfl, hconnects⟩,
          List.forall_mem_cons.2 ⟨hcompleted hQ, hall⟩, ?_⟩
        rw [hfaults, (runSlots_course hphase).faults_of_done hQ, List.append_assoc]
        rfl
      · refine .inr ⟨_ :: legs, leg, rest, m, f, hP, ?_, congrArg _ hphases, ⟨rfl, hconnects⟩,
          List.forall_mem_cons.2 ⟨hcompleted hQ, hall⟩, hlast⟩
        rw [List.flatMap_cons, List.append_assoc]
        rfl

end

/-! ### Launches -/

/-- Whether an event tells of a fault. -/
def Event.isFault : Event → Bool
  | .moduleFaulted .. => true
  | _ => false

/-- The faults that are told are the faults of the phases. -/
theorem filter_isFault_events (legs : List (Leg A)) :
    (legs.flatMap (Leg.events cast)).filter Event.isFault
      = (legs.flatMap (Leg.faults cast)).map Fault.event := by
  have hfaults : ∀ faults : List Fault,
      (faults.map Fault.event).filter Event.isFault = faults.map Fault.event := by
    intro faults
    refine List.filter_eq_self.2 fun event hevent => ?_
    obtain ⟨f, -, rfl⟩ := List.mem_map.1 hevent
    rfl
  induction legs with
  | nil => rfl
  | cons leg rest ih =>
    rw [List.flatMap_cons, List.filter_append, ih, Leg.events, List.filter_append, hfaults,
      List.flatMap_cons, List.map_append]
    exact congrArg (· ++ _) (List.append_nil _)

/-- What is exchanged in a launch before its phases: every module is asserted, every listener is prepared,
and nothing is told. -/
structure IsPrelude (cast : Cast) (e : Ensemble) (tr : List (Exchange A)) : Prop where
  called : calleesOf (deeds tr) = (e.slots.map fun s => s.hook .assertion) ++ e.listeners.map .prepare
  told : Announced cast e.bus tr []

/-- If every assertion holds, every module is called, and its slot has been asserted. -/
theorem AssertionCourse.of_held {passed rest : List Slot} {ds : List Deed} {P : Progress}
    (h : AssertionCourse cast passed rest ds P) (hheld : P.aborted = none) :
    calleesOf ds = (rest.map fun s => s.hook .assertion) ∧
      P.slots = passed ++ rest.map fun s => s.reached .assertion := by
  induction h with
  | done passed => simp
  | failed passed rest s f => cases hheld
  | held _ ih =>
    obtain ⟨hcallees, hslots⟩ := ih hheld
    simp [hcallees, hslots]

/-- If one does not, that is the failure. -/
theorem AssertionCourse.failure_of_aborted {passed rest : List Slot} {ds : List Deed} {P : Progress}
    {failure : LaunchFailure} (h : AssertionCourse cast passed rest ds P) (hP : P.aborted = some failure) :
    ∃ m f, failure = .assertionFailed m f := by
  induction h with
  | done passed => cases hP
  | failed passed rest s f => exact ⟨_, f, (Option.some.inj hP).symm⟩
  | held _ ih => exact ih hP

/-- A launch that succeeds has completed every phase. -/
structure Ensemble.TellsOfSuccess (cast : Cast) (e : Ensemble) (tr : List (Exchange A)) (slots : List Slot)
    (report : LaunchSummary) : Prop where
  story : ∃ (first last : List (Exchange A)) (legs : List (Leg A)),
    tr = first ++ (legs.flatMap Leg.exchanges ++ last) ∧ IsPrelude cast e first ∧ deeds last = [] ∧
    -- The phases of a launch follow each other, and each is completed.
    legs.map Leg.phase = Phase.startup ∧
    Connects (e.slots.map fun s => s.reached .assertion) legs slots ∧
    (∀ leg ∈ legs, leg.IsCompleted cast e.bus) ∧
    -- What they tell is all that is told, and the faults that are told are those that are reported.
    Announced cast e.bus tr (legs.flatMap (Leg.events cast)) ∧
    report = ⟨activeNames cast slots, legs.flatMap (Leg.faults cast)⟩ ∧
    (legs.flatMap (Leg.events cast)).filter Event.isFault = report.faults.map Fault.event

/-- A launch that is aborted has completed the phases before, and ends with the hook that aborts it. -/
structure Ensemble.TellsOfAbortion (cast : Cast) (e : Ensemble) (tr : List (Exchange A)) (slots : List Slot)
    (m : String) (p : Phase) (f : HookFailure) : Prop where
  story : ∃ (first : List (Exchange A)) (legs : List (Leg A)) (leg : Leg A) (rest : List Phase),
    tr = first ++ (legs.flatMap Leg.exchanges ++ leg.exchanges) ∧ IsPrelude cast e first ∧
    legs.map Leg.phase ++ leg.phase :: rest = Phase.startup ∧ leg.phase = p ∧
    Connects (e.slots.map fun s => s.reached .assertion) (legs ++ [leg]) slots ∧
    (∀ leg ∈ legs, leg.IsCompleted cast e.bus) ∧
    leg.IsAborted cast e.bus m f ∧
    -- The last thing that is told is the failure that is returned.
    Announced cast e.bus tr (legs.flatMap (Leg.events cast) ++ leg.lastEvents cast m f)

/-- What a launch tells, by its result. -/
theorem Ensemble.launch_told {name : String} {e : Ensemble} {tr : List (Exchange A)}
    {r : Except LaunchFailure LaunchSummary × Ensemble} (h : Program.Run (e.launch cast name) tr r) :
    match r.1 with
    | .ok report => e.TellsOfSuccess cast tr r.2.slots report
    | .error (.sequenceAborted m p f) => e.TellsOfAbortion cast tr r.2.slots m p f
    | .error _ => Announced cast e.bus tr [] := by
  rw [launch] at h
  by_cases hlaunched : e.launched = true
  · rw [if_pos hlaunched] at h
    obtain ⟨rfl, rfl⟩ := Program.run_pure_iff.1 h
    exact .nil
  rw [if_neg hlaunched] at h
  obtain ⟨_, tr, rfl, hstart⟩ := Program.run_ask_bind_iff.1 h
  obtain ⟨asserted, P, tr, rfl, hassert, hasserted⟩ := Program.run_bind_iff.1 hstart
  have hassertions := assertFrom_course hassert
  have hquiet : Announced cast e.bus asserted [] :=
    hassert.announced ((assertFrom_callsHooks ..).mono fun _ h => h.isSilent)
  cases haborted : P.aborted with
  | some f =>
    simp only [haborted] at hasserted
    obtain ⟨rfl, rfl⟩ := Program.run_pure_iff.1 hasserted
    obtain ⟨m, g, rfl⟩ := hassertions.failure_of_aborted haborted
    rw [List.append_nil]
    exact .silent trivial hquiet
  | none =>
    simp only [haborted] at hasserted
    cases hmissing : ({ e with slots := P.slots, launched := true } : Ensemble).missingKind? with
    | some k =>
      simp only [hmissing] at hasserted
      obtain ⟨rfl, rfl⟩ := Program.run_pure_iff.1 hasserted
      rw [List.append_nil]
      exact .silent trivial hquiet
    | none =>
      simp only [hmissing] at hasserted
      obtain ⟨prepared, ⟨⟩, tr, rfl, hprepare, hprepared⟩ := Program.run_bind_iff.1 hasserted
      obtain ⟨phases, Q, last, rfl, hphases, hend⟩ := Program.run_bind_iff.1 hprepared
      have hquiet' : Announced cast e.bus prepared [] :=
        hprepare.announced ((prepareAll_prepares ..).mono fun _ h => h.isSilent)
      obtain ⟨hcallees, hslots⟩ := hassertions.of_held haborted
      have hprelude : IsPrelude cast e (⟨.keep name { e with launched := true }, ()⟩
          :: (asserted ++ prepared)) := by
        refine ⟨?_, .silent trivial (hquiet.append hquiet')⟩
        show calleesOf (.stored _ :: deeds (asserted ++ prepared)) = _
        rw [calleesOf_stored, deeds_append, calleesOf_append, hcallees, (prepareAll_course hprepare).callees]
      rw [List.nil_append] at hslots
      rw [← List.append_assoc, ← List.cons_append]
      rcases runPhases_told hphases with ⟨hQ, legs, rfl, hstartup, hconnects, hall, hfaults⟩ |
        ⟨legs, leg, rest, m, f, hQ, rfl, hstartup, hconnects, hall, hlast⟩
      · simp only [hQ] at hend
        obtain ⟨⟨⟩, tr, rfl, hreturn⟩ := Program.run_ask_bind_iff.1 hend
        obtain ⟨rfl, rfl⟩ := Program.run_pure_iff.1 hreturn
        rw [List.nil_append] at hfaults
        have htold := hprelude.told.append (announced_legs hall)
        have hrecorded := fun record => htold.append (.silent (x := ⟨.record record, ()⟩) trivial .nil)
        simp only [List.nil_append, List.append_nil, List.append_assoc] at hrecorded
        refine ⟨_, _, legs, rfl, hprelude, rfl, hstartup, hslots ▸ hconnects, hall, hrecorded _, ?_, ?_⟩
        · rw [← hfaults]
        · rw [filter_isFault_events, hfaults]
      · simp only [hQ] at hend
        obtain ⟨rfl, rfl⟩ := Program.run_pure_iff.1 hend
        have htold := hprelude.told.append ((announced_legs hall).append hlast.told)
        rw [List.append_nil]
        exact ⟨_, legs, leg, rest, rfl, hprelude, hstartup, rfl, hslots ▸ hconnects, hall, hlast, htold⟩

/-- **What a launch tells is what has been called and what is reported**, whoever answers.  A launch that gets
to its phases tells of each phase in turn: of each hook that fails, in the order of the calls, and then how many
modules are still active.  If it succeeds, the faults that were told are those that it reports; if it is
aborted, it ends with the failure that it returns, and the phase of that is not completed.  Any other launch
tells nothing. -/
theorem launch_tells (cast : Cast) (name : String) (e : Ensemble) {σ : Answerer A}
    (hobliging : σ.IsObliging) (past : List (Exchange A)) :
    ∃ tr r, (e.launch cast name).play σ past = (tr, some r) ∧
      match r.1 with
      | .ok report => e.TellsOfSuccess cast tr r.2.slots report
      | .error (.sequenceAborted m p f) => e.TellsOfAbortion cast tr r.2.slots m p f
      | .error _ => Announced cast e.bus tr [] := by
  have hasked : (e.launch (A := A) cast name).Only fun op => Nonempty op.Answer :=
    Ensemble.only_launch
  obtain ⟨tr, r, hplay, hrun, -⟩ := Program.exists_play hobliging hasked past
  exact ⟨tr, r, hplay, Ensemble.launch_told hrun⟩

/-! ### Two launches of the sample -/

open Classical in
/-- Somebody with whom the hooks come to the given outcomes, while one listener is registered. -/
noncomputable def Answerer.attended (o : Outcomes) : Answerer A := fun _ op =>
  match op with
  | .call (.hook m p _) _ => some (o m p)
  | .call .. => some (.ok ())
  | .enclosing _ => some none
  | .beginDelivery _ => some [9]
  | .endDelivery | .keep .. | .record _ => some ()
  | op => if h : Nonempty op.Answer then some h.some else none

theorem Answerer.isObliging_attended (o : Outcomes) : (attended o : Answerer A).IsObliging := by
  intro past op h
  unfold attended
  split <;> first | rfl | (rw [dif_pos h]; rfl)

/-- An optional module fails `init`, and then the gateway fails `launch`. -/
def Outcomes.fatal : Outcomes := fun m p =>
  if m = 3 ∧ p = .init then .error (.failed "no disk")
  else if m = 4 ∧ p = .launch then .error (.failed "no port")
  else .ok ()

/-- One launch succeeds with two faults, and the other is aborted after one. -/
theorem launch_tells_sample :
    (∃ tr e, (Ensemble.sample.launch (A := .bare) Cast.sample "sample").play (.attended Outcomes.sample) []
        = (tr, some (.ok ⟨["credentials", "console", "gateway"],
            [⟨"io", .init, .failed "no disk", true⟩,
              ⟨"console", .postLaunch, .panicked "no terminal", false⟩]⟩, e)) ∧
      Ensemble.sample.TellsOfSuccess Cast.sample tr e.slots ⟨["credentials", "console", "gateway"],
            [⟨"io", .init, .failed "no disk", true⟩,
              ⟨"console", .postLaunch, .panicked "no terminal", false⟩]⟩) ∧
    ∃ tr e, (Ensemble.sample.launch (A := .bare) Cast.sample "sample").play (.attended Outcomes.fatal) []
        = (tr, some (.error (.sequenceAborted "gateway" .launch (.failed "no port")), e)) ∧
      Ensemble.sample.TellsOfAbortion Cast.sample tr e.slots "gateway" .launch (.failed "no port") := by
  constructor
  · obtain ⟨tr, ⟨result, e⟩, hplay, htells⟩ := launch_tells (A := .bare) Cast.sample "sample" Ensemble.sample
      (Answerer.isObliging_attended Outcomes.sample) []
    have hresult : ((Ensemble.sample.launch (A := .bare) Cast.sample "sample").play
        (.attended Outcomes.sample) []).2.map Prod.fst = some result := by rw [hplay]; rfl
    obtain rfl := Option.some.inj (Eq.trans (show _ = some (Except.ok _) from rfl) hresult)
    exact ⟨tr, e, hplay, htells⟩
  · obtain ⟨tr, ⟨result, e⟩, hplay, htells⟩ := launch_tells (A := .bare) Cast.sample "sample" Ensemble.sample
      (Answerer.isObliging_attended Outcomes.fatal) []
    have hresult : ((Ensemble.sample.launch (A := .bare) Cast.sample "sample").play
        (.attended Outcomes.fatal) []).2.map Prod.fst = some result := by rw [hplay]; rfl
    obtain rfl := Option.some.inj (Eq.trans (show _ = some (Except.error _) from rfl) hresult)
    exact ⟨tr, e, hplay, htells⟩

end Orchestra
