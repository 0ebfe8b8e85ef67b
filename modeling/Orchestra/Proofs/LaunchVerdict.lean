import Mathlib.Data.List.Find
import Orchestra.Proofs.Story

/-!
# What comes of a launch

What a launch comes to is settled by what the hooks come to.

* `Outcomes` — what each hook of each module comes to; `Follows` — calls that came to just that;
* `Ensemble.verdict` — what a launch should come to, read off the outcomes without a launch;
* `Slot.through`, `Slot.past` — what becomes of a slot in a phase, and in several;
* `PhaseCourse.verdict`, `SequenceCourse.verdict` — a phase, and phases in sequence, by outcomes;
* `launch_verdict` — the first launch of an ensemble that was built comes to its verdict.
-/

namespace Orchestra

variable {A : Application}

/-! ### Outcomes -/

/-- What each hook of each module comes to. -/
abbrev Outcomes := ListenerId → Phase → Outcome

/-- Why a hook fails, if it does. -/
def Outcomes.failure? (o : Outcomes) (m : ListenerId) (p : Phase) : Option HookFailure :=
  match o m p with
  | .ok _ => none
  | .error f => some f

/-- A module that has failed `init` or `launch` is skipped from then on. -/
def Outcomes.skippedBefore (o : Outcomes) (p : Phase) (m : ListenerId) : Bool :=
  [Phase.init, Phase.launch].any fun q => q.rank < p.rank && (o.failure? m q).isSome

/-- The hooks that were called came to the given outcomes. -/
def Follows (o : Outcomes) (calls : List (Callee × Outcome)) : Prop :=
  ∀ m p kit x, (Callee.hook m p kit, x) ∈ calls → x = o m p

/-- An answerer with whom every hook comes to the given outcome. -/
def Answerer.Realizes (σ : Answerer A) (o : Outcomes) : Prop :=
  ∀ past m p kit limit, σ past (.call (.hook m p kit) limit) = some (o m p)

namespace Ensemble

/-! ### The verdict -/

section

variable (cast : Cast) (e : Ensemble) (o : Outcomes)

/-- Whether the type of a module is mandatory. -/
def isMandatory (m : ListenerId) : Bool :=
  ((e.types.find? (cast.kind m)).map TypeInfo.mandatory).getD false

/-- The failure of the first module whose assertion fails. -/
def unasserted? : Option LaunchFailure :=
  e.modules.findSome? fun m =>
    (o.failure? m .assertion).map fun f => .assertionFailed (cast.name m) f

/-- The first required kind of which there is no module. -/
def absentKind? : Option Kind :=
  Kind.required.find? fun k => e.modules.all fun m => cast.kind m ≠ k

/-- The failure of the first mandatory module that fails `init` or `launch`, phase by phase. -/
def abortion? : Option LaunchFailure :=
  Phase.startup.findSome? fun p => e.modules.findSome? fun m =>
    if (p = .init ∨ p = .launch) ∧ e.isMandatory cast m then
      (o.failure? m p).map fun f => .sequenceAborted (cast.name m) p f
    else none

/-- The faults of the modules that have not been skipped before, phase by phase. -/
def faults : List Fault :=
  Phase.startup.flatMap fun p => e.modules.filterMap fun m =>
    if o.skippedBefore p m then none
    else (o.failure? m p).map fun f => ⟨cast.name m, p, f, p = .init ∨ p = .launch⟩

/-- The names of the modules that fail neither `init` nor `launch`. -/
def survivors : List String :=
  (e.modules.filter fun m =>
    (o.failure? m .init).isNone && (o.failure? m .launch).isNone).map cast.name

/-- What a launch should come to. -/
def verdict : Except LaunchFailure LaunchSummary :=
  match e.unasserted? cast o with
  | some f => .error f
  | none => match e.absentKind? cast with
    | some k => .error (.missingMandatory k.name (e.types.titleOf k))
    | none => match e.abortion? cast o with
      | some f => .error f
      | none => .ok ⟨e.survivors cast o, e.faults cast o⟩

end

end Ensemble

/-! ### Slots in phases -/

namespace Slot

/-- What becomes of a slot in a phase that is not aborted. -/
def through (o : Outcomes) (s : Slot) (p : Phase) : Slot :=
  if s.active then
    if (o.failure? s.module p).isSome && p.abortsLaunch then s.leftOut else s.reached p
  else s

/-- What becomes of a slot in phases of which none is aborted. -/
def past (o : Outcomes) (ps : List Phase) (s : Slot) : Slot := ps.foldl (through o) s

/-- The failure that aborts the launch when the slot's module is called in a phase. -/
def abort? (cast : Cast) (o : Outcomes) (p : Phase) (s : Slot) : Option LaunchFailure :=
  if s.active && p.abortsLaunch && s.info.mandatory then
    (o.failure? s.module p).map fun f => .sequenceAborted (cast.name s.module) p f
  else none

/-- The fault that is noted when the slot's module is called in a phase. -/
def fault? (cast : Cast) (o : Outcomes) (p : Phase) (s : Slot) : Option Fault :=
  if s.active then (o.failure? s.module p).map fun f => ⟨cast.name s.module, p, f, p.abortsLaunch⟩
  else none

section

variable (o : Outcomes) (s : Slot) (p : Phase) (ps : List Phase)

@[simp] theorem through_module : (s.through o p).module = s.module := by
  unfold through
  split
  · split <;> rfl
  · rfl

@[simp] theorem through_info : (s.through o p).info = s.info := by
  unfold through
  split
  · split <;> rfl
  · rfl

@[simp] theorem through_kit : (s.through o p).kit = s.kit := by
  unfold through
  split
  · split <;> rfl
  · rfl

theorem through_active : (s.through o p).active
    = (s.active && !((o.failure? s.module p).isSome && p.abortsLaunch)) := by
  unfold through
  cases hactive : s.active
  · simp [hactive]
  · cases hfails : (o.failure? s.module p).isSome && p.abortsLaunch <;> simp [hactive]

@[simp] theorem past_nil : s.past o [] = s := rfl

@[simp] theorem past_cons : s.past o (p :: ps) = (s.through o p).past o ps := rfl

theorem past_snoc : s.past o (ps ++ [p]) = (s.past o ps).through o p :=
  List.foldl_append

@[simp] theorem past_module : (s.past o ps).module = s.module := by
  induction ps generalizing s with
  | nil => rfl
  | cons p rest ih => rw [past_cons, ih, through_module]

@[simp] theorem past_info : (s.past o ps).info = s.info := by
  induction ps generalizing s with
  | nil => rfl
  | cons p rest ih => rw [past_cons, ih, through_info]

@[simp] theorem past_kit : (s.past o ps).kit = s.kit := by
  induction ps generalizing s with
  | nil => rfl
  | cons p rest ih => rw [past_cons, ih, through_kit]

/-- A slot stays active unless its module fails a phase that matters. -/
theorem past_active : (s.past o ps).active
    = (s.active && !(ps.any fun p => (o.failure? s.module p).isSome && p.abortsLaunch)) := by
  induction ps generalizing s with
  | nil => simp
  | cons p rest ih =>
    rw [past_cons, ih, through_module, through_active, List.any_cons, Bool.not_or, Bool.and_assoc]

end

end Slot

/-! ### Phases by outcomes -/

theorem Follows.of_cons {o : Outcomes} {c : Callee × Outcome} {calls : List (Callee × Outcome)}
    (h : Follows o (c :: calls)) : Follows o calls :=
  fun m p kit x hx => h m p kit x (List.mem_cons_of_mem c hx)

theorem Follows.of_append_left {o : Outcomes} {calls calls' : List (Callee × Outcome)}
    (h : Follows o (calls ++ calls')) : Follows o calls :=
  fun m p kit x hx => h m p kit x (List.mem_append_left _ hx)

theorem Follows.of_append_right {o : Outcomes} {calls calls' : List (Callee × Outcome)}
    (h : Follows o (calls ++ calls')) : Follows o calls' :=
  fun m p kit x hx => h m p kit x (List.mem_append_right _ hx)

theorem Follows.failure?_of_error {o : Outcomes} {s : Slot} {p : Phase} {f : HookFailure}
    {calls : List (Callee × Outcome)} (h : Follows o ((s.hook p, .error f) :: calls)) :
    o.failure? s.module p = some f := by
  rw [Outcomes.failure?, ← h s.module p s.kit _ List.mem_cons_self]

theorem Follows.failure?_of_ok {o : Outcomes} {s : Slot} {p : Phase}
    {calls : List (Callee × Outcome)} (h : Follows o ((s.hook p, .ok ()) :: calls)) :
    o.failure? s.module p = none := by
  rw [Outcomes.failure?, ← h s.module p s.kit _ List.mem_cons_self]

section

variable {cast : Cast} {o : Outcomes} {p : Phase} {passed rest slots : List Slot}
  {faults : List Fault} {ds : List Deed} {P : Progress}

theorem AssertionCourse.verdict (h : AssertionCourse cast passed rest ds P)
    (ho : Follows o (callsOf ds)) :
    P.aborted = (rest.findSome? fun s =>
        (o.failure? s.module .assertion).map fun f => .assertionFailed (cast.name s.module) f) ∧
      (P.aborted = none → P.slots = passed ++ rest.map fun s => s.reached .assertion) := by
  induction h with
  | done passed => simp
  | failed passed rest s f =>
    have hf := ho.failure?_of_error
    simp [hf]
  | held _ ih =>
    have hok := ho.failure?_of_ok
    obtain ⟨haborted, hslots⟩ := ih ho.of_cons
    refine ⟨by simp [hok, haborted], fun hnone => ?_⟩
    rw [hslots hnone]
    simp

/-- A phase by outcomes: whether it aborts, and else what becomes of the slots and which faults there
are. -/
theorem PhaseCourse.verdict (h : PhaseCourse cast p passed faults rest ds P)
    (ho : Follows o (callsOf ds)) :
    P.aborted = rest.findSome? (Slot.abort? cast o p) ∧
      (P.aborted = none → P.slots = passed ++ rest.map (fun s => s.through o p) ∧
        P.faults = faults ++ rest.filterMap (Slot.fault? cast o p)) := by
  induction h with
  | done passed faults => simp
  | absent hactive _ ih =>
    obtain ⟨haborted, hrest⟩ := ih ho
    refine ⟨by simp [haborted, Slot.abort?, hactive], fun hnone => ?_⟩
    obtain ⟨hslots, hfaults⟩ := hrest hnone
    simp [hslots, hfaults, Slot.through, Slot.fault?, hactive]
  | ran hactive _ ih =>
    have hok := ho.failure?_of_ok
    obtain ⟨haborted, hrest⟩ := ih ho.of_cons
    refine ⟨by simp [haborted, Slot.abort?, hok], fun hnone => ?_⟩
    obtain ⟨hslots, hfaults⟩ := hrest hnone
    simp [hslots, hfaults, Slot.through, Slot.fault?, hactive, hok]
  | aborted passed rest faults f hactive hphase hmandatory =>
    have hf := ho.failure?_of_error
    simp [Slot.abort?, hactive, hphase, hmandatory, hf]
  | leftOut f hactive hphase hoptional _ ih =>
    have hf := ho.failure?_of_error
    obtain ⟨haborted, hrest⟩ := ih ho.of_cons
    refine ⟨by simp [haborted, Slot.abort?, hoptional], fun hnone => ?_⟩
    obtain ⟨hslots, hfaults⟩ := hrest hnone
    simp [hslots, hfaults, Slot.through, Slot.fault?, hactive, hphase, hf]
  | noted f hactive hphase _ ih =>
    have hf := ho.failure?_of_error
    obtain ⟨haborted, hrest⟩ := ih ho.of_cons
    refine ⟨by simp [haborted, Slot.abort?, hphase], fun hnone => ?_⟩
    obtain ⟨hslots, hfaults⟩ := hrest hnone
    simp [hslots, hfaults, Slot.through, Slot.fault?, hactive, hphase, hf]

end

/-! ### Phases in sequence -/

theorem Phase.abortsLaunch_iff {p : Phase} : p.abortsLaunch = true ↔ p = .init ∨ p = .launch := by
  cases p <;> decide

/-- The phases of a launch before a given one are those of smaller rank. -/
theorem Phase.mem_of_startup_eq {done rest : List Phase} {p : Phase}
    (h : Phase.startup = done ++ p :: rest) {q : Phase} (hq : q.abortsLaunch = true) :
    q ∈ done ↔ q.rank < p.rank := by
  have hpairwise : (done ++ p :: rest).Pairwise fun q r => q.rank < r.rank := by
    rw [← h]
    decide
  obtain ⟨_, hrest, hbefore⟩ := List.pairwise_append.1 hpairwise
  constructor
  · exact fun hmem => hbefore q hmem p List.mem_cons_self
  · intro hrank
    have hmem : q ∈ done ++ p :: rest := by
      rw [← h]
      rcases Phase.abortsLaunch_iff.1 hq with rfl | rfl <;> decide
    rcases List.mem_append.1 hmem with hmem | hmem
    · exact hmem
    rcases List.mem_cons.1 hmem with rfl | hmem
    · exact absurd hrank (Nat.lt_irrefl _)
    · exact absurd ((List.pairwise_cons.1 hrest).1 q hmem) (Nat.lt_asymm hrank)

/-- A slot that started active is active in a phase unless its module is skipped by then. -/
theorem Slot.past_active_eq {o : Outcomes} {s : Slot} {done rest : List Phase} {p : Phase}
    (h : Phase.startup = done ++ p :: rest) (hactive : s.active = true) :
    (s.past o done).active = !o.skippedBefore p s.module := by
  rw [past_active, hactive, Bool.true_and, Outcomes.skippedBefore]
  congr 1
  rw [Bool.eq_iff_iff, List.any_eq_true, List.any_eq_true]
  constructor
  · intro hyp
    obtain ⟨q, hq, hfails⟩ := hyp
    rw [Bool.and_eq_true] at hfails
    refine ⟨q, ?_, ?_⟩
    · rcases Phase.abortsLaunch_iff.1 hfails.2 with rfl | rfl <;> simp
    · simpa [hfails.1] using (Phase.mem_of_startup_eq h hfails.2).1 hq
  · intro hyp
    obtain ⟨q, hq, hfails⟩ := hyp
    have hphase : q.abortsLaunch = true := Phase.abortsLaunch_iff.2 (by simpa using hq)
    rw [Bool.and_eq_true, decide_eq_true_eq] at hfails
    refine ⟨q, (Phase.mem_of_startup_eq h hphase).2 hfails.1, ?_⟩
    rw [hfails.2, hphase]
    rfl

theorem findSome?_congr {α β : Type} {f g : α → Option β} {xs : List α} (h : ∀ x ∈ xs, f x = g x) :
    xs.findSome? f = xs.findSome? g := by
  rw [← List.head?_filterMap, List.filterMap_congr h, List.head?_filterMap]

/-- The failure of the first mandatory module that fails a phase which aborts the launch. -/
def abortionAt? (cast : Cast) (o : Outcomes) (slots : List Slot) (p : Phase) :
    Option LaunchFailure :=
  slots.findSome? fun s =>
    if p.abortsLaunch && s.info.mandatory then
      (o.failure? s.module p).map fun f => .sequenceAborted (cast.name s.module) p f
    else none

/-- The faults in a phase of the modules that have not been skipped before. -/
def faultsAt (cast : Cast) (o : Outcomes) (slots : List Slot) (p : Phase) : List Fault :=
  slots.filterMap fun s =>
    if o.skippedBefore p s.module then none
    else (o.failure? s.module p).map fun f => ⟨cast.name s.module, p, f, p.abortsLaunch⟩

section

variable {cast : Cast} {o : Outcomes} {base : List Slot} {done rest : List Phase} {p : Phase}

/-- As long as no phase has aborted, the mandatory modules are active. -/
theorem findSome?_abort? (hactive : ∀ s ∈ base, s.active = true)
    (hdone : ∀ q ∈ done, abortionAt? cast o base q = none) :
    (base.map (Slot.past o done)).findSome? (Slot.abort? cast o p) = abortionAt? cast o base p := by
  rw [List.findSome?_map]
  refine findSome?_congr fun s hs => ?_
  rw [Function.comp_apply, Slot.abort?, Slot.past_module, Slot.past_info]
  by_cases hmandatory : s.info.mandatory = true
  · suffices hstays : (s.past o done).active = true by rw [hstays, Bool.true_and]
    rw [Slot.past_active, hactive s hs, Bool.true_and, Bool.not_eq_true', List.any_eq_false]
    intro q hq hfails
    obtain ⟨hfailure, hphase⟩ := Bool.and_eq_true_iff.1 hfails
    obtain ⟨f, hf⟩ := Option.isSome_iff_exists.1 hfailure
    have hnone := List.findSome?_eq_none_iff.1 (hdone q hq) s hs
    simp [hphase, hmandatory, hf] at hnone
  · simp [hmandatory]

theorem filterMap_fault? (hsplit : Phase.startup = done ++ p :: rest)
    (hactive : ∀ s ∈ base, s.active = true) :
    (base.map (Slot.past o done)).filterMap (Slot.fault? cast o p) = faultsAt cast o base p := by
  rw [List.filterMap_map]
  refine List.filterMap_congr fun s hs => ?_
  rw [Function.comp_apply, Slot.fault?, Slot.past_module, Slot.past_active_eq hsplit (hactive s hs)]
  cases o.skippedBefore p s.module <;> rfl

/-- The phases of a launch by outcomes. -/
theorem SequenceCourse.verdict {slots : List Slot} {faults : List Fault} {ps : List Phase}
    {ds : List Deed} {P : Progress} (h : SequenceCourse cast slots faults ps ds P)
    (ho : Follows o (callsOf ds)) (hsplit : Phase.startup = done ++ ps)
    (hactive : ∀ s ∈ base, s.active = true)
    (hdone : ∀ q ∈ done, abortionAt? cast o base q = none)
    (hslots : slots = base.map (Slot.past o done)) :
    P.aborted = ps.findSome? (abortionAt? cast o base) ∧
      (P.aborted = none → P.slots = base.map (Slot.past o Phase.startup) ∧
        P.faults = faults ++ ps.flatMap (faultsAt cast o base)) := by
  induction h generalizing done with
  | done slots faults =>
    rw [List.append_nil] at hsplit
    simp [hslots, hsplit]
  | aborted hphase hsome =>
    have hverdict := (hphase.verdict ho).1
    rw [hslots, findSome?_abort? hactive hdone] at hverdict
    obtain ⟨f, hf⟩ := Option.isSome_iff_exists.1 hsome
    rw [hf] at hverdict
    simp [hf, ← hverdict]
  | @next slots faults p rest ds ds' P P' hphase hnone _ ih =>
    rw [callsOf_append] at ho
    obtain ⟨haborted, hprogress⟩ := hphase.verdict ho.of_append_left
    obtain ⟨hP, hfaults⟩ := hprogress hnone
    rw [hslots, findSome?_abort? hactive hdone, hnone] at haborted
    have hslots' : P.slots = base.map (Slot.past o (done ++ [p])) := by
      rw [hP, hslots, List.nil_append, List.map_map]
      exact List.map_congr_left fun s _ => (Slot.past_snoc o s p done).symm
    have hdone' : ∀ q ∈ done ++ [p], abortionAt? cast o base q = none := by
      intro q hq
      rcases List.mem_append.1 hq with hq | hq
      · exact hdone q hq
      · rw [List.mem_singleton.1 hq]
        exact haborted.symm
    obtain ⟨haborted', hprogress'⟩ :=
      ih ho.of_append_right (by rw [hsplit, List.append_assoc, List.singleton_append]) hdone'
        hslots'
    refine ⟨by rw [haborted', List.findSome?_cons, ← haborted], fun hnone' => ?_⟩
    obtain ⟨hslots'', hfaults'⟩ := hprogress' hnone'
    refine ⟨hslots'', ?_⟩
    rw [hfaults', hfaults, hslots, filterMap_fault? hsplit hactive, List.flatMap_cons,
      List.append_assoc]

end

/-! ### Launches -/

namespace Ensemble

variable {cast : Cast} {name : String} {e e₀ : Ensemble} {o : Outcomes}

theorem Arranged.isMandatory (h : e.Arranged cast) {s : Slot} (hs : s ∈ e.slots) :
    e.isMandatory cast s.module = s.info.mandatory := by
  rw [Ensemble.isMandatory, h.info s hs]
  rfl

theorem Arranged.missingKind? (h : e.Arranged cast) : e.missingKind? = e.absentKind? cast := by
  unfold Ensemble.missingKind? absentKind?
  refine List.find?_congr fun k _ => ?_
  rw [Ensemble.modules, List.all_map, Bool.eq_iff_iff]
  simp only [Bool.not_eq_true', List.any_eq_false, List.all_eq_true, decide_eq_true_eq,
    Function.comp_apply, ne_eq]
  constructor
  · intro hnone s hs hk
    exact hnone s hs (by rw [TypeCatalogue.kind_of_find? (h.info s hs), hk])
  · intro hnone s hs hk
    exact hnone s hs (by rw [← TypeCatalogue.kind_of_find? (h.info s hs), hk])

theorem missingKind?_asserted :
    ({ e with slots := e.slots.map fun s => s.reached .assertion } : Ensemble).missingKind?
      = e.missingKind? := by
  simp only [Ensemble.missingKind?, List.any_map]
  rfl

theorem unasserted?_eq : e.unasserted? cast o = e.slots.findSome? fun s =>
    (o.failure? s.module .assertion).map fun f => .assertionFailed (cast.name s.module) f :=
  List.findSome?_map

theorem Arranged.abortion?_eq (h : e.Arranged cast) : e.abortion? cast o =
    Phase.startup.findSome?
      (abortionAt? cast o (e.slots.map fun s => s.reached .assertion)) := by
  refine findSome?_congr fun p _ => ?_
  rw [Ensemble.modules, List.findSome?_map, abortionAt?, List.findSome?_map]
  refine findSome?_congr fun s hs => ?_
  simp only [Function.comp_apply, Slot.reached_module, Slot.reached_info, h.isMandatory hs,
    Bool.and_eq_true, Phase.abortsLaunch_iff]
  congr

theorem faults_eq : e.faults cast o =
    Phase.startup.flatMap (faultsAt cast o (e.slots.map fun s => s.reached .assertion)) := by
  refine List.flatMap_congr fun p _ => ?_
  rw [Ensemble.modules, List.filterMap_map, faultsAt, List.filterMap_map]
  refine List.filterMap_congr fun s _ => ?_
  have hphase : decide (p = .init ∨ p = .launch) = p.abortsLaunch := by cases p <;> decide
  simp only [Function.comp_apply, Slot.reached_module, hphase]
  rfl

theorem activeNames_eq (hactive : ∀ s ∈ e.slots, s.active = true) :
    activeNames cast
      ((e.slots.map fun s => s.reached .assertion).map (Slot.past o Phase.startup))
      = e.survivors cast o := by
  have hnames : ∀ s : Slot, cast.name ((s.reached .assertion).past o Phase.startup).module
      = cast.name s.module := by simp
  rw [activeNames, survivors, Ensemble.modules, List.map_map, List.filter_map, List.filter_map,
    List.map_map, List.map_map]
  refine (List.map_congr_left fun s _ => hnames s).trans ?_
  congr 1
  refine List.filter_congr fun s hs => ?_
  simp only [Function.comp_apply, Slot.past_active, Slot.reached_active, Slot.reached_module,
    hactive s hs, Phase.startup, Phase.abortsLaunch, List.any_cons, List.any_nil, Bool.true_and,
    Bool.and_true, Bool.and_false, Bool.or_false, Bool.false_or, Bool.not_or, Option.not_isSome]

theorem active_asserted (h : e.Untouched) :
    ∀ s ∈ e.slots.map fun s => s.reached .assertion, s.active = true := by
  intro s hs
  obtain ⟨s', hs', rfl⟩ := List.mem_map.1 hs
  exact (h.slots s' hs').2

/-- The phases of a launch once every assertion has held. -/
theorem startup_verdict (harranged : e.Arranged cast) (huntouched : e.Untouched)
    {ds : List Deed} {Q : Progress}
    (h : SequenceCourse cast (e.slots.map fun s => s.reached .assertion) [] Phase.startup ds Q)
    (ho : Follows o (callsOf ds)) :
    Q.aborted = e.abortion? cast o ∧ (Q.aborted = none →
      activeNames cast Q.slots = e.survivors cast o ∧ Q.faults = e.faults cast o) := by
  obtain ⟨haborted, hprogress⟩ := h.verdict ho (List.nil_append _).symm
    (active_asserted huntouched) (by simp) (List.map_id _).symm
  refine ⟨by rw [haborted, harranged.abortion?_eq], fun hnone => ?_⟩
  obtain ⟨hslots, hfaults⟩ := hprogress hnone
  rw [hslots, hfaults, List.nil_append, faults_eq]
  exact ⟨activeNames_eq fun s hs => (huntouched.slots s hs).2, rfl⟩

/-- What is known when every assertion has held. -/
theorem Arranged.asserted (h : e.Arranged cast) {ds : List Deed} {P : Progress}
    (hassert : AssertionCourse cast [] e.slots ds P) (haborted : P.aborted = none)
    (ho : Follows o (callsOf ds)) : e.unasserted? cast o = none ∧
      P.slots = (e.slots.map fun s => s.reached .assertion) ∧
      ({ e with slots := P.slots } : Ensemble).missingKind? = e.absentKind? cast := by
  obtain ⟨hnone, hP⟩ := hassert.verdict ho
  rw [haborted, ← unasserted?_eq] at hnone
  refine ⟨hnone.symm, hP haborted, ?_⟩
  rw [hP haborted, List.nil_append, missingKind?_asserted, h.missingKind?]

/-- A launch comes to its verdict if the hooks come to the outcomes. -/
theorem verdict_of_course {ds : List Deed} {r : Except LaunchFailure LaunchSummary × Ensemble}
    (harranged : e.Arranged cast) (huntouched : e.Untouched) (h : LaunchCourse cast e ds r)
    (ho : Follows o (callsOf ds)) : r.1 = e.verdict cast o := by
  unfold verdict
  cases h with
  | repeated hlaunched => simp [huntouched.launched] at hlaunched
  | asserted _ hassert haborted =>
    have hverdict := (hassert.verdict ho).1
    rw [haborted, ← unasserted?_eq] at hverdict
    rw [← hverdict]
  | missing _ hassert haborted hmissing =>
    obtain ⟨hnone, _, hkinds⟩ := harranged.asserted hassert haborted ho
    rw [hkinds] at hmissing
    rw [hnone, hmissing]
  | aborted _ hassert haborted hmissing _ hphases hQ =>
    rw [callsOf_append, callsOf_append] at ho
    obtain ⟨hnone, hP, hkinds⟩ :=
      harranged.asserted hassert haborted ho.of_append_left.of_append_left
    rw [hkinds] at hmissing
    rw [hP] at hphases
    have hverdict := (startup_verdict harranged huntouched hphases ho.of_append_right).1
    rw [hnone, hmissing, ← hverdict, hQ]
  | completed _ hassert haborted hmissing _ hphases hQ =>
    rw [callsOf_append, callsOf_append] at ho
    obtain ⟨hnone, hP, hkinds⟩ :=
      harranged.asserted hassert haborted ho.of_append_left.of_append_left
    rw [hkinds] at hmissing
    rw [hP] at hphases
    obtain ⟨hverdict, hsummary⟩ :=
      startup_verdict harranged huntouched hphases ho.of_append_right
    obtain ⟨hactive, hfaults⟩ := hsummary hQ
    rw [hnone, hmissing, ← hverdict, hQ, hactive, hfaults]

end Ensemble

/-! ### Answers that follow the outcomes -/

theorem Exchange.eq_of_deed? {x : Exchange A} {m : ListenerId} {p : Phase} {kit : Kit}
    {o : Outcome} (h : x.deed? = some (.called (.hook m p kit) o)) :
    ∃ limit, x = ⟨.call (.hook m p kit) limit, o⟩ := by
  unfold deed? at h
  split at h
  · cases h
    exact ⟨_, rfl⟩
  · cases h
  · cases h
  · cases h

theorem Answerer.Gave.exists_past {σ : Answerer A} {past tr : List (Exchange A)}
    (h : σ.Gave past tr) : ∀ x ∈ tr, ∃ before, σ before x.op = some x.answer := by
  induction h with
  | nil past => simp
  | cons hx _ ih =>
    intro y hy
    rcases List.mem_cons.1 hy with rfl | hy
    · exact ⟨_, hx⟩
    · exact ih y hy

theorem Answerer.Gave.follows_of_realizes {σ : Answerer A} {o : Outcomes} (hσ : σ.Realizes o)
    {past tr : List (Exchange A)} (h : σ.Gave past tr) : Follows o (callsOf (deeds tr)) := by
  intro m p kit x hx
  obtain ⟨d, hd, hcall⟩ := List.mem_filterMap.1 hx
  obtain ⟨y, hy, hdeed⟩ := List.mem_filterMap.1 hd
  cases d with
  | stored slots => cases hcall
  | called c o' =>
    obtain ⟨rfl, rfl⟩ := Prod.mk.inj (Option.some.inj hcall)
    obtain ⟨limit, rfl⟩ := Exchange.eq_of_deed? hdeed
    obtain ⟨before, hbefore⟩ := h.exists_past _ hy
    exact Option.some.inj (hbefore.symm.trans (hσ before m p kit limit))

/-! ### The first launch -/

section

variable {cast : Cast} {name : String} {e₀ e : Ensemble}

/-- Shutdowns before the first launch change nothing. -/
theorem Story.eq_of_shutdowns {T : List (Request × List (Exchange A))} (hbuilt : Built A cast e₀)
    (h : Story cast name e₀ T e) (hT : ∀ x ∈ T, x.1 = .shutdown) :
    e = e₀ ∧ deeds (exchanges T) = [] := by
  obtain ⟨C, hC, hexchanges, hacts⟩ := h.chronicle
  have hlaunch : Act.launch ∉ C.map Prod.fst := by
    intro hmem
    have hact : Act.launch ∈ actsOf C := List.mem_filter.2 ⟨hmem, rfl⟩
    rw [hacts] at hact
    obtain ⟨x, hx, hxact⟩ := List.mem_flatMap.1 hact
    rw [hT x hx] at hxact
    simp [Request.acts] at hxact
  rw [← hexchanges]
  cases Chronicle.biography hbuilt.untouched hC with
  | untouched huneventful => exact ⟨rfl, deeds_exchanges_of_isUneventful huneventful⟩
  | launched => simp at hlaunch
  | closed => simp at hlaunch

/-- **The first launch of an ensemble that was built comes to its verdict**, whatever the hooks come to
and whatever else is answered. -/
theorem launch_verdict {T : List (Request × List (Exchange A))} (hbuilt : Built A cast e₀)
    (hstory : Story cast name e₀ T e) (hfirst : ∀ x ∈ T, x.1 = .shutdown) (o : Outcomes)
    {σ : Answerer A} (hobliging : σ.IsObliging) (hσ : σ.Realizes o) (past : List (Exchange A)) :
    ∃ tr e', (e.launch cast name).play σ past = (tr, some (e.verdict cast o, e')) := by
  obtain ⟨rfl, _⟩ := Story.eq_of_shutdowns hbuilt hstory hfirst
  have hasked : (e.launch (A := A) cast name).Only fun op => Nonempty op.Answer :=
    Ensemble.only_launch
  obtain ⟨tr, ⟨result, e'⟩, hplay, hrun, hgave⟩ := Program.exists_play hobliging hasked past
  have hverdict := Ensemble.verdict_of_course hbuilt.arranged hbuilt.untouched
    (Ensemble.launch_course hrun) (hgave.follows_of_realizes hσ)
  exact ⟨tr, e', by rw [hplay, ← hverdict]⟩

end

open Classical in
/-- Somebody with whom the hooks come to the given outcomes, and who answers everything else as he
likes. -/
noncomputable def Answerer.prompt (o : Outcomes) : Answerer A := fun _ op =>
  match op with
  | .call (.hook m p _) _ => some (o m p)
  | op => if h : Nonempty op.Answer then some h.some else none

theorem Answerer.realizes_prompt (o : Outcomes) : (prompt o : Answerer A).Realizes o :=
  fun _ _ _ _ _ => rfl

theorem Answerer.isObliging_prompt (o : Outcomes) : (prompt o : Answerer A).IsObliging := by
  intro past op h
  unfold prompt
  split
  · rfl
  · rw [dif_pos h]
    rfl

/-- One module fails `init`, and another fails after the launch. -/
def Outcomes.sample : Outcomes := fun m p =>
  if m = 3 ∧ p = .init then .error (.failed "no disk")
  else if m = 1 ∧ p = .postLaunch then .error (.panicked "no terminal")
  else .ok ()

/-- An optional module that fails `init` is skipped; a module that fails after the launch is not. -/
theorem launch_verdict_sample :
    ∃ tr e', (Ensemble.sample.launch (A := .bare) Cast.sample "sample").play
        (.prompt Outcomes.sample) [] =
      (tr, some (.ok ⟨["credentials", "console", "gateway"],
        [⟨"io", .init, .failed "no disk", true⟩,
          ⟨"console", .postLaunch, .panicked "no terminal", false⟩]⟩, e')) :=
  launch_verdict built_sample .start (by simp) Outcomes.sample
    (Answerer.isObliging_prompt _) (Answerer.realizes_prompt _) []

end Orchestra
