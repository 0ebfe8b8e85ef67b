import Orchestra.Proofs.Others
import Orchestra.Proofs.Shutdown
import Orchestra.Proofs.Tidings

/-!
# The others do without an optional module

What becomes of an optional module makes no difference to the others: what is done with them is what would be
done if the module were not there.

* `DiffersOnlyAt` — outcomes that differ only at one module, once it has been asserted;
* `LaunchCourse.parts`, `LaunchCourse.undisturbed` — a launch, part by part, and two launches;
* `launchReport`, `closingReport` — reports as they are made from slots, calls and workers;
* `Ensemble.shutdown_undisturbed` — two shutdowns;
* `Round`, `Round.AgreesBut` — a launch and then a shutdown, and two of them that agree but for one module;
* `optional_module_disturbs_none` — whatever comes of an optional module, the others fare the same.
-/

namespace Orchestra

variable {A : Application} {cast : Cast} {X : ListenerId}

/-! ### Two launches -/

/-- Outcomes that differ at most in what becomes of one module once it has been asserted. -/
def DiffersOnlyAt (X : ListenerId) (o o' : Outcomes) : Prop :=
  ∀ m p, m ≠ X ∨ p = .assertion → o m p = o' m p

section

variable {o o' : Outcomes} {ps : List Phase} {passed rest slots : List Slot} {faults : List Fault}
  {ds ds' : List Deed} {P P' : Progress} {calls : List (Callee × Outcome)}

theorem Follows.congr (ho : Follows o calls)
    (h : ∀ m p kit x, (Callee.hook m p kit, x) ∈ calls → o m p = o' m p) : Follows o' calls :=
  fun m p kit x hx => (ho m p kit x hx).trans (h m p kit x hx)

/-- The calls of the others follow the outcomes of either side. -/
theorem Follows.others (ho : Follows o calls) (hsame : DiffersOnlyAt X o o') :
    Follows o' (othersCalls X calls) := by
  have hothers : Follows o (othersCalls X calls) :=
    fun m p kit x hx => ho m p kit x (List.mem_of_mem_filter hx)
  refine hothers.congr fun m p kit x hx => hsame m p (.inl ?_)
  exact of_decide_eq_true (List.mem_filter.1 hx).2

/-- So do the assertions. -/
theorem AssertionCourse.follows (h : AssertionCourse cast passed rest ds P) (ho : Follows o (callsOf ds))
    (hsame : DiffersOnlyAt X o o') : Follows o' (callsOf ds) := by
  refine ho.congr fun m p kit x hx => hsame m p (.inr ?_)
  have hmem : Callee.hook m p kit ∈ calleesOf ds := List.mem_map_of_mem hx
  obtain ⟨s, -, hs⟩ := List.mem_map.1 (h.callees_sublist.mem hmem)
  exact (Callee.hook.inj hs).2.1.symm

/-- Phases over the same slots do the same with the others. -/
theorem SequenceCourse.undisturbed (h : SequenceCourse cast slots faults ps ds P)
    (ho : Follows o (callsOf ds)) (h' : SequenceCourse cast slots faults ps ds' P')
    (ho' : Follows o' (callsOf ds')) (hX : IsOptional X slots) (hsame : DiffersOnlyAt X o o') :
    othersCalls X (callsOf ds) = othersCalls X (callsOf ds') ∧
      othersSlots X P.slots = othersSlots X P'.slots ∧ P.aborted = P'.aborted := by
  obtain ⟨rest, Q, hothers, hcalls, hslots, haborted⟩ := h.without hX []
  obtain ⟨rest', Q', hothers', hcalls', hslots', haborted'⟩ := h'.without hX []
  have hfollows : Follows o' (callsOf rest) := hcalls ▸ ho.others hsame
  have hfollows' : Follows o' (callsOf rest') := hcalls' ▸ ho'.others fun _ _ _ => rfl
  obtain ⟨rfl, rfl⟩ := hothers.unique hfollows hothers' hfollows'
  exact ⟨hcalls.symm.trans hcalls', hslots.symm.trans hslots', haborted.symm.trans haborted'⟩

theorem PreparationCourse.othersCalls_eq {ls : List ListenerId} (h : PreparationCourse ls ds) :
    othersCalls X (callsOf ds) = [] := by
  induction h with
  | done => rfl
  | prepared l o _ ih => exact ih

end

/-- The failure that ends a launch before its phases: an assertion has failed, or a kind is missing. -/
def Ensemble.earlyFailure? (e : Ensemble) (P : Progress) : Option LaunchFailure :=
  match P.aborted with
  | some f => some f
  | none => ({ e with slots := P.slots } : Ensemble).missingKind?.map fun k =>
      .missingMandatory k.name (e.types.titleOf k)

section

variable {e : Ensemble} {ds ds' : List Deed} {r r' : Except LaunchFailure LaunchSummary × Ensemble}

/-- A launch that is not refused, part by part. -/
theorem LaunchCourse.parts (h : LaunchCourse cast e ds r) (hfirst : e.launched = false) :
    ∃ asserted P rest, AssertionCourse cast [] e.slots asserted P ∧
      ds = .stored e.slots :: (asserted ++ rest) ∧
      match e.earlyFailure? P with
      | some f => rest = [] ∧ r = (.error f, { e with launched := true, slots := P.slots })
      | none => ∃ prepared phases Q, PreparationCourse e.listeners prepared ∧
          SequenceCourse cast P.slots [] Phase.startup phases Q ∧ rest = prepared ++ phases ∧
          r.2 = { e with launched := true, slots := Q.slots } ∧
          r.1 = match Q.aborted with
            | some f => .error f
            | none => .ok ⟨Ensemble.activeNames cast Q.slots, Q.faults⟩ := by
  cases h with
  | repeated hlaunched => cases hfirst.symm.trans hlaunched
  | @asserted ds P f _ hassert haborted =>
    refine ⟨ds, P, [], hassert, by rw [List.append_nil], ?_⟩
    simp only [Ensemble.earlyFailure?, haborted, true_and]
  | @missing ds P k _ hassert haborted hmissing =>
    refine ⟨ds, P, [], hassert, by rw [List.append_nil], ?_⟩
    simp only [Ensemble.earlyFailure?, haborted, hmissing, Option.map_some, true_and]
  | @aborted ds prepared phases P Q f _ hassert haborted hmissing hprepare hphases hQ =>
    refine ⟨ds, P, prepared ++ phases, hassert, by rw [List.cons_append, List.cons_append, List.append_assoc], ?_⟩
    simp only [Ensemble.earlyFailure?, haborted, hmissing, Option.map_none]
    exact ⟨prepared, phases, Q, hprepare, hphases, rfl, rfl, by rw [hQ]⟩
  | @completed ds prepared phases P Q _ hassert haborted hmissing hprepare hphases hQ =>
    refine ⟨ds, P, prepared ++ phases, hassert, by rw [List.cons_append, List.cons_append, List.append_assoc], ?_⟩
    simp only [Ensemble.earlyFailure?, haborted, hmissing, Option.map_none]
    exact ⟨prepared, phases, Q, hprepare, hphases, rfl, rfl, by rw [hQ]⟩

/-- Two launches whose outcomes differ only at an optional module do the same with the others, and both succeed
or fail alike. -/
theorem LaunchCourse.undisturbed {o o' : Outcomes} (h : LaunchCourse cast e ds r)
    (ho : Follows o (callsOf ds)) (h' : LaunchCourse cast e ds' r') (ho' : Follows o' (callsOf ds'))
    (hX : IsOptional X e.slots) (hsame : DiffersOnlyAt X o o') :
    othersCalls X (callsOf ds) = othersCalls X (callsOf ds') ∧
      othersSlots X r.2.slots = othersSlots X r'.2.slots ∧
      r.1.map (fun _ => ()) = r'.1.map fun _ => () := by
  cases hlaunched : e.launched with
  | true =>
    obtain ⟨rfl, rfl⟩ := h.of_launched hlaunched
    obtain ⟨rfl, rfl⟩ := h'.of_launched hlaunched
    exact ⟨rfl, rfl, rfl⟩
  | false =>
    obtain ⟨asserted, P, rest, hassert, rfl, hparts⟩ := h.parts hlaunched
    obtain ⟨asserted', P', rest', hassert', rfl, hparts'⟩ := h'.parts hlaunched
    rw [callsOf_stored, callsOf_append] at ho ho'
    have hfollows : Follows o' (callsOf asserted) := hassert.follows ho.of_append_left hsame
    obtain ⟨rfl, rfl⟩ := hassert.unique hfollows hassert' ho'.of_append_left
    cases hearly : e.earlyFailure? P with
    | some f =>
      simp only [hearly] at hparts hparts'
      obtain ⟨rfl, rfl⟩ := hparts
      obtain ⟨rfl, rfl⟩ := hparts'
      exact ⟨rfl, rfl, rfl⟩
    | none =>
      simp only [hearly] at hparts hparts'
      obtain ⟨prepared, phases, Q, hprepare, hphases, rfl, hslots, hresult⟩ := hparts
      obtain ⟨prepared', phases', Q', hprepare', hphases', rfl, hslots', hresult'⟩ := hparts'
      rw [callsOf_append] at ho ho'
      obtain ⟨hcalls, hothers, haborted⟩ := hphases.undisturbed ho.of_append_right.of_append_right hphases'
        ho'.of_append_right.of_append_right (hassert.isOptional hX) hsame
      rw [hslots, hslots', hresult, hresult', haborted]
      refine ⟨?_, hothers, ?_⟩
      · simp only [callsOf_stored, callsOf_append, othersCalls_append, hprepare.othersCalls_eq,
          hprepare'.othersCalls_eq, hcalls]
      · cases Q'.aborted <;> rfl

end

/-! ### Reports -/

/-- What a launch reports of slots and of calls: each entry is about one of them. -/
def launchReport (cast : Cast) (slots : List Slot) (calls : List (Callee × Outcome)) : LaunchSummary :=
  ⟨Ensemble.activeNames cast slots, callFaults cast calls⟩

/-- What a shutdown reports of calls, and of workers that are left, each with the module that has started it. -/
def closingReport (cast : Cast) (calls : List (Callee × Outcome)) (workers : List (ListenerId × String)) :
    ShutdownSummary :=
  ⟨callFaults cast calls, workers.map Prod.snd⟩

/-- A report without the entries under a name. -/
def LaunchSummary.without (name : String) (r : LaunchSummary) : LaunchSummary :=
  ⟨r.active.filter fun n => n ≠ name, r.faults.filter fun f => f.module ≠ name⟩

/-- The faults of the others are those under other names, if no other module goes by the same name. -/
theorem callFaults_othersCalls (hnames : ∀ m, m ≠ X → cast.name m ≠ cast.name X)
    (calls : List (Callee × Outcome)) :
    callFaults cast (othersCalls X calls) = (callFaults cast calls).filter fun f => f.module ≠ cast.name X := by
  rw [callFaults, callFaults, othersCalls, List.filterMap_filter, List.filter_filterMap]
  refine List.filterMap_congr fun c _ => ?_
  obtain ⟨callee, o⟩ := c
  cases callee with
  | hook m p kit =>
    by_cases hm : m = X
    · subst hm
      cases o <;> simp [callFault?, Callee.isOthersHook, Option.filter]
    · cases o <;> simp [callFault?, Callee.isOthersHook, Option.filter, hm, hnames m hm]
  | _ => rfl

theorem launchReport_others (hnames : ∀ m, m ≠ X → cast.name m ≠ cast.name X) (slots : List Slot)
    (calls : List (Callee × Outcome)) : launchReport cast (othersSlots X slots) (othersCalls X calls)
      = (launchReport cast slots calls).without (cast.name X) := by
  rw [launchReport, launchReport, LaunchSummary.without, callFaults_othersCalls hnames]
  congr 1
  rw [Ensemble.activeNames, Ensemble.activeNames, othersSlots, List.filter_map, List.filter_comm]
  refine congrArg _ (List.filter_congr fun s _ => ?_)
  by_cases hs : s.module = X
  · simp [hs]
  · simp [hs, hnames _ hs]

section

variable {e : Ensemble} {o : Outcomes} {ps : List Phase} {passed rest slots : List Slot} {faults : List Fault}
  {ds : List Deed} {P : Progress}

theorem AssertionCourse.callFaults_eq (h : AssertionCourse cast passed rest ds P) (hheld : P.aborted = none) :
    callFaults cast (callsOf ds) = [] := by
  induction h with
  | done passed => rfl
  | failed passed rest s f => cases hheld
  | held _ ih => simp [ih hheld]

theorem PreparationCourse.callFaults_eq {ls : List ListenerId} (h : PreparationCourse ls ds) :
    callFaults cast (callsOf ds) = [] := by
  induction h with
  | done => rfl
  | prepared l o _ ih => exact ih

/-- Phases that are completed report the hooks that have failed. -/
theorem SequenceCourse.faults_eq (h : SequenceCourse cast slots faults ps ds P) (hdone : P.aborted = none) :
    P.faults = faults ++ callFaults cast (callsOf ds) := by
  induction h with
  | done slots faults => simp
  | aborted _ hsome =>
    rw [hdone] at hsome
    cases hsome
  | next hphase hnone _ ih =>
    rw [ih hdone, hphase.faults_of_done hnone, callsOf_append, callFaults_append, List.append_assoc]

/-- A launch that succeeds reports its slots and its calls. -/
theorem LaunchCourse.report_eq {r : Except LaunchFailure LaunchSummary × Ensemble} {report : LaunchSummary}
    (h : LaunchCourse cast e ds r) (hok : r.1 = .ok report) :
    report = launchReport cast r.2.slots (callsOf ds) := by
  cases h with
  | repeated | asserted | missing | aborted => cases hok
  | completed _ hassert haborted _ hprepare hphases hQ =>
    cases hok
    rw [callsOf_append, callsOf_append, callsOf_stored, launchReport, callFaults_append, callFaults_append,
      hassert.callFaults_eq haborted, hprepare.callFaults_eq, hphases.faults_eq hQ]
    rfl

end

/-! ### Two shutdowns -/

section

variable {name : String} {e e' : Ensemble} {o o' : Outcomes}

theorem othersSlots_filter (f : Slot → Bool) (slots : List Slot) :
    othersSlots X (slots.filter f) = (othersSlots X slots).filter f :=
  List.filter_comm ..

theorem Ensemble.othersSlots_closingSlots (hslots : othersSlots X e.slots = othersSlots X e'.slots)
    (hconfig : e.config = e'.config) : othersSlots X e.closingSlots = othersSlots X e'.closingSlots := by
  unfold closingSlots
  rw [hconfig]
  cases e'.config.closingOrder with
  | startup => exact hslots
  | reverse =>
    show List.filter _ e.slots.reverse = List.filter _ e'.slots.reverse
    rw [List.filter_reverse, List.filter_reverse]
    exact congrArg List.reverse hslots

theorem Ensemble.othersSlots_stopped (e : Ensemble) :
    othersSlots X e.stopped.slots = (othersSlots X e.slots).map Slot.stopped := by
  show List.filter _ (e.slots.map Slot.stopped) = _
  rw [List.filter_map]
  refine congrArg _ (List.filter_congr fun s _ => ?_)
  rw [Function.comp_apply, Slot.stopped_module]

/-- The calls of the others in a shutdown. -/
theorem othersCalls_closing (slots : List Slot) :
    othersCalls X (slots.map fun s => (s.hook .shutdown, o s.module .shutdown))
      = (othersSlots X slots).map fun s => (s.hook .shutdown, o s.module .shutdown) := by
  rw [othersCalls, List.filter_map]
  rfl

/-- A shutdown reports its calls. -/
theorem Ensemble.closingFaults_eq_callFaults (cast : Cast) (e : Ensemble) (o : Outcomes) :
    e.closingFaults cast o
      = callFaults cast (e.dueSlots.map fun s => (s.hook .shutdown, o s.module .shutdown)) := by
  rw [closingFaults, callFaults, List.filterMap_map]
  refine List.filterMap_congr fun s _ => ?_
  rw [Function.comp_apply, Outcomes.failure?]
  cases o s.module .shutdown <;> rfl

/-- What a shutdown comes to by the outcomes. -/
theorem Ensemble.shutdown_by {tr : List (Exchange A)} {r : ShutdownSummary × Ensemble}
    (h : Program.Run (e.shutdown cast name) tr r) (ho : Follows o (callsOf (deeds tr))) :
    callsOf (deeds tr) = (e.dueSlots.map fun s => (s.hook .shutdown, o s.module .shutdown)) ∧
      r.1.failures = callFaults cast (callsOf (deeds tr)) ∧ r.2 = e.stopped := by
  obtain ⟨hcallees, -, hresult⟩ := shutdown_run h
  have hcalls := ho.calls_eq hcallees
  obtain ⟨stuck, rfl⟩ := hresult o ho
  exact ⟨hcalls, by rw [hcalls, closingFaults_eq_callFaults], rfl⟩

/-- Two shutdowns that differ only at one module do the same with the others. -/
theorem Ensemble.shutdown_undisturbed {tr tr' : List (Exchange A)} {r r' : ShutdownSummary × Ensemble}
    (h : Program.Run (e.shutdown cast name) tr r) (ho : Follows o (callsOf (deeds tr)))
    (h' : Program.Run (e'.shutdown cast name) tr' r') (ho' : Follows o' (callsOf (deeds tr')))
    (hslots : othersSlots X e.slots = othersSlots X e'.slots) (hconfig : e.config = e'.config)
    (hsame : DiffersOnlyAt X o o') :
    othersCalls X (callsOf (deeds tr)) = othersCalls X (callsOf (deeds tr')) ∧
      othersSlots X r.2.slots = othersSlots X r'.2.slots := by
  obtain ⟨hcalls, -, hr⟩ := shutdown_by h ho
  obtain ⟨hcalls', -, hr'⟩ := shutdown_by h' ho'
  have hdue : othersSlots X e.dueSlots = othersSlots X e'.dueSlots := by
    rw [dueSlots, dueSlots, othersSlots_filter, othersSlots_filter, othersSlots_closingSlots hslots hconfig]
  constructor
  · rw [hcalls, hcalls', othersCalls_closing, othersCalls_closing, hdue]
    refine List.map_congr_left fun s hs => ?_
    rw [hsame s.module .shutdown (.inl (of_decide_eq_true (List.mem_filter.1 hs).2))]
  · rw [hr, hr', othersSlots_stopped, othersSlots_stopped, hslots]

end

/-! ### Workers that are left -/

/-- When the workers have been waited for in vain these are left, each with the module that has started it. -/
structure Answerer.Leaves (σ : Answerer A) (workers : List (ListenerId × String)) : Prop where
  awaited : ∀ past crew grace, σ past (.awaitCrew crew grace) = some true → workers = []
  named : ∀ past crew, σ past (.crewNames crew) = some (workers.map Prod.snd)

/-- The workers of the other modules. -/
def othersWorkers (X : ListenerId) (workers : List (ListenerId × String)) : List (ListenerId × String) :=
  workers.filter fun w => w.1 ≠ X

section

variable {name : String} {e : Ensemble} {σ : Answerer A} {workers : List (ListenerId × String)}

theorem Crew.dissolve_of_leaves {crew : CrewId} {grace : Duration} {tr : List (Exchange A)} {stuck : List String}
    (h : Program.Run (dissolve crew grace) tr stuck) (hσ : σ.Leaves workers)
    (hgave : ∀ x ∈ tr, ∃ past, σ past x.op = some x.answer) : stuck = workers.map Prod.snd := by
  obtain ⟨empty, tr, rfl, hawaited⟩ := Program.run_ask_bind_iff.1 h
  obtain ⟨past, hempty⟩ := hgave _ List.mem_cons_self
  cases empty with
  | true =>
    obtain ⟨-, rfl⟩ := Program.run_pure_iff.1 hawaited
    rw [hσ.awaited past crew grace hempty]
    rfl
  | false =>
    obtain ⟨names, tr, rfl, hnamed⟩ := Program.run_ask_bind_iff.1 hawaited
    obtain ⟨past, hnames⟩ := hgave ⟨.crewNames crew, names⟩ (by simp)
    obtain ⟨⟨⟩, tr, rfl, hend⟩ := Program.run_ask_bind_iff.1 hnamed
    obtain ⟨-, rfl⟩ := Program.run_pure_iff.1 hend
    exact Option.some.inj (hnames.symm.trans (hσ.named past crew))

/-- A shutdown reports the workers that are left. -/
theorem Ensemble.stuckWorkers_of_leaves {tr : List (Exchange A)} {r : ShutdownSummary × Ensemble}
    (h : Program.Run (e.shutdown cast name) tr r) (hσ : σ.Leaves workers)
    (hgave : ∀ x ∈ tr, ∃ past, σ past x.op = some x.answer) :
    r.1.stuckWorkers = workers.map Prod.snd := by
  obtain ⟨hooks, c, announced, dismissed, rfl, -, -, -, hdismiss⟩ := shutdown_parts h
  obtain ⟨waited, stuck, first, rest, last, rfl, hwaited, -, -, rfl⟩ := dismiss_parts hdismiss
  exact Crew.dissolve_of_leaves hwaited hσ fun x hx => hgave x (by simp [hx])

end

/-! ### A launch and then a shutdown -/

/-- A launch and then a shutdown: what is exchanged in each, what it comes to, and the ensemble after it. -/
structure Round (A : Application) where
  launching : List (Exchange A)
  result : Except LaunchFailure LaunchSummary
  launched : Ensemble
  closing : List (Exchange A)
  report : ShutdownSummary
  closed : Ensemble

namespace Round

/-- The calls of a launch. -/
def launchCalls (R : Round A) : List (Callee × Outcome) := callsOf (deeds R.launching)

/-- The calls of a shutdown. -/
def closingCalls (R : Round A) : List (Callee × Outcome) := callsOf (deeds R.closing)

/-- An ensemble is launched and shut down, with somebody who answers. -/
structure IsPlayed (cast : Cast) (name : String) (e : Ensemble) (σ : Answerer A) (past : List (Exchange A))
    (R : Round A) : Prop where
  launch : (e.launch cast name).play σ past = (R.launching, some (R.result, R.launched))
  shutdown : (R.launched.shutdown cast name).play σ (past ++ R.launching)
    = (R.closing, some (R.report, R.closed))

/-- Two launches with their shutdowns are the same but for one module. -/
structure AgreesBut (cast : Cast) (X : ListenerId) (R R' : Round A) : Prop where
  /-- Both launches succeed, or both fail in the same way. -/
  result : R.result.map (fun _ => ()) = R'.result.map fun _ => ()
  launchCalls : othersCalls X R.launchCalls = othersCalls X R'.launchCalls
  launched : othersSlots X R.launched.slots = othersSlots X R'.launched.slots
  closingCalls : othersCalls X R.closingCalls = othersCalls X R'.closingCalls
  closed : othersSlots X R.closed.slots = othersSlots X R'.closed.slots
  /-- The reports of launches that succeed are about slots and calls; without those of the module they are the
  same. -/
  launchReports : ∀ report report', R.result = .ok report → R'.result = .ok report' →
    report = launchReport cast R.launched.slots R.launchCalls ∧
    report' = launchReport cast R'.launched.slots R'.launchCalls ∧
    launchReport cast (othersSlots X R.launched.slots) (othersCalls X R.launchCalls)
      = launchReport cast (othersSlots X R'.launched.slots) (othersCalls X R'.launchCalls)
  /-- So are the failures that the shutdowns report. -/
  failures : R.report.failures = callFaults cast R.closingCalls ∧
    R'.report.failures = callFaults cast R'.closingCalls ∧
    callFaults cast (othersCalls X R.closingCalls) = callFaults cast (othersCalls X R'.closingCalls)
  /-- If no other module goes by its name, the reports are the same without the entries under its name. -/
  named : (∀ m, m ≠ X → cast.name m ≠ cast.name X) →
    R.result.map (LaunchSummary.without (cast.name X)) = R'.result.map (LaunchSummary.without (cast.name X)) ∧
    (R.report.failures.filter fun f => f.module ≠ cast.name X)
      = R'.report.failures.filter fun f => f.module ≠ cast.name X

end Round

section

variable {name : String} {e : Ensemble} {o o' : Outcomes} {σ σ' : Answerer A}

/-- What is known of a launch and a shutdown with somebody with whom the hooks come to the given outcomes. -/
structure Round.Follows (cast : Cast) (name : String) (e : Ensemble) (o : Outcomes) (R : Round A) : Prop where
  launch : Program.Run (e.launch cast name) R.launching (R.result, R.launched)
  shutdown : Program.Run (R.launched.shutdown cast name) R.closing (R.report, R.closed)
  launchCalls : Orchestra.Follows o R.launchCalls
  closingCalls : Orchestra.Follows o R.closingCalls

/-- Somebody obliging sees a launch and a shutdown to their end. -/
theorem Round.exists_isPlayed (cast : Cast) (name : String) (e : Ensemble) (hobliging : σ.IsObliging)
    (hσ : σ.Realizes o) (past : List (Exchange A)) : ∃ R : Round A, R.IsPlayed cast name e σ past ∧
      R.Follows cast name e o ∧ ∀ x ∈ R.closing, ∃ before, σ before x.op = some x.answer := by
  have hlaunches : (e.launch (A := A) cast name).Only fun op => Nonempty op.Answer := Ensemble.only_launch
  obtain ⟨launching, ⟨result, launched⟩, hlaunch, hrun, hgave⟩ := Program.exists_play hobliging hlaunches past
  have hdismisses : (launched.shutdown (A := A) cast name).Only fun op => Nonempty op.Answer :=
    Ensemble.only_shutdown
  obtain ⟨closing, ⟨report, closed⟩, hshutdown, hrun', hgave'⟩ :=
    Program.exists_play hobliging hdismisses (past ++ launching)
  exact ⟨⟨launching, result, launched, closing, report, closed⟩, ⟨hlaunch, hshutdown⟩,
    ⟨hrun, hrun', hgave.follows_of_realizes hσ, hgave'.follows_of_realizes hσ⟩, hgave'.exists_past⟩

theorem Round.Follows.agreesBut {R R' : Round A} (h : R.Follows cast name e o) (h' : R'.Follows cast name e o')
    (hX : IsOptional X e.slots) (hsame : DiffersOnlyAt X o o') : R.AgreesBut cast X R' := by
  have hcourse := Ensemble.launch_course h.launch
  have hcourse' := Ensemble.launch_course h'.launch
  obtain ⟨hcalls, hslots, hresult⟩ :=
    hcourse.undisturbed h.launchCalls hcourse' h'.launchCalls hX hsame
  have hconfig : R.launched.config = R'.launched.config :=
    (congrArg Ensemble.config hcourse.eq_with).trans (congrArg Ensemble.config hcourse'.eq_with).symm
  obtain ⟨hclosing, hclosed⟩ := Ensemble.shutdown_undisturbed h.shutdown h.closingCalls h'.shutdown
    h'.closingCalls hslots hconfig hsame
  have hfailures : R.report.failures = callFaults cast R.closingCalls :=
    (Ensemble.shutdown_by h.shutdown h.closingCalls).2.1
  have hfailures' : R'.report.failures = callFaults cast R'.closingCalls :=
    (Ensemble.shutdown_by h'.shutdown h'.closingCalls).2.1
  have hothers : othersCalls X R.closingCalls = othersCalls X R'.closingCalls := hclosing
  have hreports : launchReport cast (othersSlots X R.launched.slots) (othersCalls X R.launchCalls)
      = launchReport cast (othersSlots X R'.launched.slots) (othersCalls X R'.launchCalls) :=
    congr (congrArg (launchReport cast) hslots) hcalls
  refine ⟨hresult, hcalls, hslots, hclosing, hclosed, fun report report' hok hok' => ?_,
    ⟨hfailures, hfailures', congrArg _ hothers⟩, fun hnames => ⟨?_, ?_⟩⟩
  · exact ⟨hcourse.report_eq hok, hcourse'.report_eq hok', hreports⟩
  · cases hok : R.result <;> cases hok' : R'.result <;> rw [hok, hok'] at hresult
    case ok.ok =>
      rw [launchReport_others hnames, launchReport_others hnames] at hreports
      rw [hcourse.report_eq hok, hcourse'.report_eq hok']
      exact congrArg Except.ok hreports
    all_goals cases hresult
    rfl
  · rw [hfailures, hfailures', ← callFaults_othersCalls hnames, ← callFaults_othersCalls hnames, hothers]

/-- **An optional module cannot disturb the others.**  Let two assignments of outcomes differ only in what becomes
of a module that is not mandatory, once it has been asserted.  A launch and then a shutdown come to their end with
either, and agree but for that module: the launches succeed or fail alike; the hooks of the others are called in the
same order, with the same outcomes; the slots of the others are the same after the launch and after the shutdown;
and the reports are the same once its own entries are removed.  That holds whoever answers, and of the workers that
are reported if the same workers of the others are left. -/
theorem optional_module_disturbs_none (cast : Cast) (name : String) (e : Ensemble) (X : ListenerId)
    (hX : IsOptional X e.slots) (hsame : DiffersOnlyAt X o o') (hobliging : σ.IsObliging) (hσ : σ.Realizes o)
    (hobliging' : σ'.IsObliging) (hσ' : σ'.Realizes o') (past past' : List (Exchange A)) :
    ∃ R R' : Round A, R.IsPlayed cast name e σ past ∧ R'.IsPlayed cast name e σ' past' ∧
      R.AgreesBut cast X R' ∧
      ∀ workers workers', σ.Leaves workers → σ'.Leaves workers' →
        othersWorkers X workers = othersWorkers X workers' →
        R.report = closingReport cast R.closingCalls workers ∧
        R'.report = closingReport cast R'.closingCalls workers' ∧
        closingReport cast (othersCalls X R.closingCalls) (othersWorkers X workers)
          = closingReport cast (othersCalls X R'.closingCalls) (othersWorkers X workers') := by
  obtain ⟨R, hplayed, hfollows, hgave⟩ := Round.exists_isPlayed cast name e hobliging hσ past
  obtain ⟨R', hplayed', hfollows', hgave'⟩ := Round.exists_isPlayed cast name e hobliging' hσ' past'
  have hagrees := hfollows.agreesBut hfollows' hX hsame
  refine ⟨R, R', hplayed, hplayed', hagrees, fun workers workers' hleaves hleaves' hothers => ⟨?_, ?_, ?_⟩⟩
  · have hstuck := Ensemble.stuckWorkers_of_leaves hfollows.shutdown hleaves hgave
    rw [closingReport, ← hagrees.failures.1, ← hstuck]
  · have hstuck := Ensemble.stuckWorkers_of_leaves hfollows'.shutdown hleaves' hgave'
    rw [closingReport, ← hagrees.failures.2.1, ← hstuck]
  · rw [hagrees.closingCalls, hothers]

end

/-! ### Two rounds of the sample -/

/-- Somebody who lets the hooks come to the given outcomes, and with whom workers are left. -/
noncomputable def Answerer.haunted (o : Outcomes) (workers : List (ListenerId × String)) : Answerer A :=
  fun past op => match op with
  | .cancel _ => some ()
  | .awaitCrew .. => some workers.isEmpty
  | .crewNames _ => some (workers.map Prod.snd)
  | .edit .. => some false
  | op => attended o past op

theorem Answerer.isObliging_haunted (o : Outcomes) (workers : List (ListenerId × String)) :
    (haunted o workers : Answerer A).IsObliging := by
  intro past op h
  unfold haunted
  split
  case h_5 => exact isObliging_attended o past _ h
  all_goals rfl

theorem Answerer.realizes_haunted (o : Outcomes) (workers : List (ListenerId × String)) :
    (haunted o workers : Answerer A).Realizes o :=
  fun _ _ _ _ _ => rfl

theorem Answerer.leaves_haunted (o : Outcomes) (workers : List (ListenerId × String)) :
    (haunted o workers : Answerer A).Leaves workers :=
  ⟨fun _ _ _ h => List.isEmpty_iff.1 (Option.some.inj h), fun _ _ => rfl⟩

/-- The module that fails `init` in the sample fails only at the end. -/
def Outcomes.late : Outcomes := fun m p =>
  if m = 3 then (if p = .shutdown then .error (.failed "no disk") else .ok ()) else Outcomes.sample m p

theorem differsOnlyAt_late : DiffersOnlyAt 3 Outcomes.sample Outcomes.late := by
  intro m p h
  by_cases hm : m = 3
  · rcases h with h | rfl
    · exact absurd hm h
    · rw [hm]
      rfl
  · rw [Outcomes.late, if_neg hm]

/-- Once the module is skipped, and once it fails to shut down and leaves a worker behind; the others fare the
same. -/
theorem optional_module_disturbs_none_sample :
    ∃ R R' : Round .bare,
      R.IsPlayed Cast.sample "sample" Ensemble.sample (.haunted Outcomes.sample [(4, "gateway/accept")]) [] ∧
      R'.IsPlayed Cast.sample "sample" Ensemble.sample
        (.haunted Outcomes.late [(3, "io/flush"), (4, "gateway/accept")]) [] ∧
      R.AgreesBut Cast.sample 3 R' ∧
      R.result = .ok ⟨["credentials", "console", "gateway"],
        [⟨"io", .init, .failed "no disk", true⟩,
          ⟨"console", .postLaunch, .panicked "no terminal", false⟩]⟩ ∧
      R'.result = .ok ⟨["credentials", "console", "io", "gateway"],
        [⟨"console", .postLaunch, .panicked "no terminal", false⟩]⟩ ∧
      R.report = ⟨[], ["gateway/accept"]⟩ ∧
      R'.report = ⟨[⟨"io", .shutdown, .failed "no disk", false⟩], ["io/flush", "gateway/accept"]⟩ ∧
      closingReport Cast.sample (othersCalls 3 R.closingCalls) [(4, "gateway/accept")]
        = closingReport Cast.sample (othersCalls 3 R'.closingCalls) [(4, "gateway/accept")] := by
  obtain ⟨R, R', hplayed, hplayed', hagrees, hworkers⟩ := optional_module_disturbs_none (A := .bare) Cast.sample
    "sample" Ensemble.sample 3 (by decide) differsOnlyAt_late
    (Answerer.isObliging_haunted _ [(4, "gateway/accept")]) (Answerer.realizes_haunted _ _)
    (Answerer.isObliging_haunted _ [(3, "io/flush"), (4, "gateway/accept")]) (Answerer.realizes_haunted _ _) [] []
  have hresult : some _ = some R.result := congrArg (fun x => x.2.map Prod.fst) hplayed.launch
  have hresult' : some _ = some R'.result := congrArg (fun x => x.2.map Prod.fst) hplayed'.launch
  have hlaunched : some _ = some R.launched := congrArg (fun x => x.2.map Prod.snd) hplayed.launch
  have hlaunched' : some _ = some R'.launched := congrArg (fun x => x.2.map Prod.snd) hplayed'.launch
  have hshutdown := hplayed.shutdown
  have hshutdown' := hplayed'.shutdown
  rw [← Option.some.inj hlaunched] at hshutdown
  rw [← Option.some.inj hlaunched'] at hshutdown'
  have hreport : some _ = some R.report := congrArg (fun x => x.2.map Prod.fst) hshutdown
  have hreport' : some _ = some R'.report := congrArg (fun x => x.2.map Prod.fst) hshutdown'
  exact ⟨R, R', hplayed, hplayed', hagrees, (Option.some.inj hresult).symm, (Option.some.inj hresult').symm,
    (Option.some.inj hreport).symm, (Option.some.inj hreport').symm,
    (hworkers _ _ (Answerer.leaves_haunted _ _) (Answerer.leaves_haunted _ _) rfl).2.2⟩

end Orchestra
