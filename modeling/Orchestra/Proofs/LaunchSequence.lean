import Orchestra.Proofs.LaunchVerdict
import Orchestra.Proofs.Stages

/-!
# The calls of a launch

* `upTo` — the beginning of a list, up to and with the first item that ends it;
* `LaunchStep` — what a launch does in turn: it calls somebody, or looks for the required kinds;
* `Ensemble.agenda` — everything that a launch would do if nothing were fatal;
* `Ensemble.plannedCalls` — the calls of the agenda up to and with the first fatal failure;
* `Ensemble.calls_of_course` — the calls of a launch are the planned ones.
-/

namespace Orchestra

variable {A : Application}

/-! ### Lists up to an item -/

/-- The items of a list up to and with the first that ends it. -/
def upTo {α : Type} (ends : α → Bool) : List α → List α
  | [] => []
  | x :: rest => if ends x then [x] else x :: upTo ends rest

section

variable {α β : Type} {ends : α → Bool} {xs ys : List α}

theorem upTo_append (h : ∀ x ∈ xs, ends x = false) : upTo ends (xs ++ ys) = xs ++ upTo ends ys := by
  induction xs with
  | nil => rfl
  | cons x rest ih =>
    rw [List.cons_append, upTo, h x List.mem_cons_self, ih fun y hy => h y (List.mem_cons_of_mem x hy)]
    rfl

theorem upTo_eq_self (h : ∀ x ∈ xs, ends x = false) : upTo ends xs = xs := by
  have happend : upTo ends (xs ++ []) = xs ++ upTo ends [] := upTo_append h
  rwa [List.append_nil, upTo, List.append_nil] at happend

theorem upTo_append_of_mem {x : α} (hx : x ∈ xs) (hends : ends x = true) :
    upTo ends (xs ++ ys) = upTo ends xs := by
  induction xs with
  | nil => cases hx
  | cons y rest ih =>
    rw [List.cons_append, upTo, upTo]
    cases hy : ends y with
    | true => rfl
    | false =>
      rcases List.mem_cons.1 hx with rfl | hx
      · rw [hends] at hy
        cases hy
      · rw [ih hx]

theorem upTo_map {ends : β → Bool} (f : α → β) (xs : List α) :
    upTo ends (xs.map f) = (upTo (fun x => ends (f x)) xs).map f := by
  induction xs with
  | nil => rfl
  | cons x rest ih =>
    rw [List.map_cons, upTo, upTo, ih]
    split <;> rfl

theorem upTo_congr {ends' : α → Bool} (h : ∀ x ∈ xs, ends x = ends' x) :
    upTo ends xs = upTo ends' xs := by
  induction xs with
  | nil => rfl
  | cons x rest ih =>
    rw [upTo, upTo, h x List.mem_cons_self, ih fun y hy => h y (List.mem_cons_of_mem x hy)]

end

/-! ### The agenda -/

/-- What a launch does in turn. -/
inductive LaunchStep where
  /-- Somebody is called. -/
  | call (callee : Callee)
  /-- The required kinds are looked for. -/
  | presence
  deriving Repr, Inhabited

/-- Who is called. -/
def LaunchStep.callee? : LaunchStep → Option Callee
  | call c => some c
  | presence => none

/-- The hooks of a phase, for the slots whose modules are not skipped by then. -/
def stepsOf (o : Outcomes) (slots : List Slot) (p : Phase) : List LaunchStep :=
  (slots.filter fun s => !o.skippedBefore p s.module).map fun s => .call (s.hook p)

namespace Ensemble

variable (cast : Cast) (e : Ensemble) (o : Outcomes)

/-- Whether the launch ends with a step: an assertion fails, a required kind is missing, or a mandatory
module fails `init` or `launch`. -/
def isFatal : LaunchStep → Bool
  | .call (.hook m p _) => (o.failure? m p).isSome &&
      (p = .assertion || (p = .init || p = .launch) && e.isMandatory cast m)
  | .call _ => false
  | .presence => (e.absentKind? cast).isSome

/-- Everything that a launch would do if nothing were fatal. -/
def agenda : List LaunchStep :=
  (e.slots.map fun s => .call (s.hook .assertion)) ++ .presence ::
    ((e.listeners.map fun l => .call (.prepare l)) ++ Phase.startup.flatMap (stepsOf o e.slots))

/-- The calls of a launch, up to and with the first fatal failure. -/
def plannedCalls : List Callee := (upTo (e.isFatal cast o) (e.agenda o)).filterMap LaunchStep.callee?

end Ensemble

/-! ### The calls of courses -/

section

variable {cast : Cast} {o : Outcomes} {p : Phase} {passed rest slots : List Slot}
  {faults : List Fault} {ds : List Deed} {P : Progress}

theorem AssertionCourse.callees (h : AssertionCourse cast passed rest ds P)
    (ho : Follows o (callsOf ds)) : calleesOf ds =
      (upTo (fun s => (o.failure? s.module .assertion).isSome) rest).map
        fun s => s.hook .assertion := by
  induction h with
  | done passed => rfl
  | failed passed rest s f => simp [upTo, ho.failure?_of_error]
  | held _ ih => simp [upTo, ho.failure?_of_ok, ih ho.of_cons]

/-- The calls of a phase go to the active slots in turn, up to the one that aborts the launch. -/
theorem PhaseCourse.callees (h : PhaseCourse cast p passed faults rest ds P)
    (ho : Follows o (callsOf ds)) : calleesOf ds =
      (upTo (fun s => (s.abort? cast o p).isSome) (rest.filter Slot.active)).map
        fun s => s.hook p := by
  induction h with
  | done passed faults => rfl
  | absent hactive _ ih => simp [hactive, ih ho]
  | ran hactive _ ih =>
    have hok := ho.failure?_of_ok
    simp [hactive, upTo, Slot.abort?, hok, ih ho.of_cons]
  | aborted passed rest faults f hactive hphase hmandatory =>
    have hf := ho.failure?_of_error
    simp [hactive, upTo, Slot.abort?, hf, hphase, hmandatory]
  | leftOut f hactive hphase hoptional _ ih =>
    simp [hactive, upTo, Slot.abort?, hoptional, ih ho.of_cons]
  | noted f hactive hphase _ ih =>
    simp [hactive, upTo, Slot.abort?, hphase, ih ho.of_cons]

end

/-! ### Phases in sequence -/

theorem Slot.isSome_abort? (cast : Cast) (o : Outcomes) (p : Phase) (s : Slot) :
    (s.abort? cast o p).isSome =
      ((o.failure? s.module p).isSome && (s.active && p.abortsLaunch && s.info.mandatory)) := by
  unfold abort?
  cases s.active && p.abortsLaunch && s.info.mandatory <;> simp

section

variable {cast : Cast} {e : Ensemble} {o : Outcomes} {base : List Slot} {done rest : List Phase}
  {p : Phase}

theorem isFatal_hook (hsplit : Phase.startup = done ++ p :: rest) {s : Slot}
    (hmandatory : e.isMandatory cast s.module = s.info.mandatory)
    (hactive : (s.past o done).active = true) :
    e.isFatal cast o (.call (s.hook p)) = ((s.past o done).abort? cast o p).isSome := by
  have hp : p ∈ Phase.startup := by
    rw [hsplit]
    simp
  have hassertion : p ≠ .assertion := by
    intro heq
    subst heq
    exact absurd hp (by decide)
  have hphase : (decide (p = .init) || decide (p = .launch)) = p.abortsLaunch := by
    cases p <;> rfl
  rw [Slot.isSome_abort?, hactive, Slot.past_module, Slot.past_info, Bool.true_and, ← hphase]
  simp [Ensemble.isFatal, Slot.hook, hassertion, hmandatory]

/-- The calls of a phase are its steps, up to and with the first fatal one. -/
theorem PhaseCourse.callees_eq {slots : List Slot} {faults : List Fault} {ds : List Deed}
    {P : Progress} (h : PhaseCourse cast p [] faults slots ds P) (ho : Follows o (callsOf ds))
    (hsplit : Phase.startup = done ++ p :: rest) (hactive : ∀ s ∈ base, s.active = true)
    (hmandatory : ∀ s ∈ base, e.isMandatory cast s.module = s.info.mandatory)
    (hslots : slots = base.map (Slot.past o done)) :
    calleesOf ds = (upTo (e.isFatal cast o) (stepsOf o base p)).filterMap LaunchStep.callee? ∧
      (P.aborted.isSome ↔ ∃ x ∈ stepsOf o base p, e.isFatal cast o x = true) := by
  have hfilter : base.filter (Slot.active ∘ Slot.past o done)
      = base.filter fun s => !o.skippedBefore p s.module :=
    List.filter_congr fun s hs => Slot.past_active_eq hsplit (hactive s hs)
  have hfatal : ∀ s ∈ base.filter fun s => !o.skippedBefore p s.module,
      ((s.past o done).abort? cast o p).isSome = e.isFatal cast o (.call (s.hook p)) := by
    intro s hs
    rw [← hfilter] at hs
    obtain ⟨hs, hstays⟩ := List.mem_filter.1 hs
    exact (isFatal_hook hsplit (hmandatory s hs) hstays).symm
  constructor
  · rw [h.callees ho, hslots, List.filter_map, hfilter, upTo_map, upTo_congr hfatal, stepsOf, upTo_map,
      List.map_map, List.filterMap_map]
    have hhook : ((fun s : Slot => s.hook p) ∘ Slot.past o done) = fun s => s.hook p := by
      funext s
      simp [Slot.hook]
    rw [hhook]
    exact (congrFun List.filterMap_eq_map _).symm
  · rw [(h.verdict ho).1, hslots, List.findSome?_map, List.findSome?_isSome_iff]
    constructor
    · intro hyp
      obtain ⟨s, hs, habort⟩ := hyp
      have hstays : (s.past o done).active = true := by
        rw [Function.comp_apply, Slot.isSome_abort?] at habort
        simp only [Bool.and_eq_true] at habort
        exact habort.2.1.1
      refine ⟨.call (s.hook p), List.mem_map_of_mem ?_, ?_⟩
      · rw [← hfilter]
        exact List.mem_filter.2 ⟨hs, hstays⟩
      · rw [isFatal_hook hsplit (hmandatory s hs) hstays]
        exact habort
    · intro hyp
      obtain ⟨x, hx, hends⟩ := hyp
      obtain ⟨s, hs, rfl⟩ := List.mem_map.1 hx
      refine ⟨s, (List.mem_filter.1 hs).1, ?_⟩
      rw [Function.comp_apply, hfatal s hs, hends]

/-- The calls of phases in sequence are their steps, up to and with the first fatal one. -/
theorem SequenceCourse.callees_eq {slots : List Slot} {faults : List Fault} {ps : List Phase}
    {ds : List Deed} {P : Progress} (h : SequenceCourse cast slots faults ps ds P)
    (ho : Follows o (callsOf ds)) (hsplit : Phase.startup = done ++ ps)
    (hactive : ∀ s ∈ base, s.active = true)
    (hmandatory : ∀ s ∈ base, e.isMandatory cast s.module = s.info.mandatory)
    (hslots : slots = base.map (Slot.past o done)) :
    calleesOf ds =
      (upTo (e.isFatal cast o) (ps.flatMap (stepsOf o base))).filterMap LaunchStep.callee? := by
  induction h generalizing done with
  | done slots faults => rfl
  | aborted hphase hsome =>
    obtain ⟨hcallees, hfatal⟩ := hphase.callees_eq ho hsplit hactive hmandatory hslots
    obtain ⟨x, hx, hends⟩ := hfatal.1 hsome
    rw [hcallees, List.flatMap_cons, upTo_append_of_mem hx hends]
  | @next slots faults p rest ds ds' P P' hphase hnone _ ih =>
    rw [callsOf_append] at ho
    obtain ⟨hcallees, hfatal⟩ :=
      hphase.callees_eq ho.of_append_left hsplit hactive hmandatory hslots
    have hsafe : ∀ x ∈ stepsOf o base p, e.isFatal cast o x = false := by
      intro x hx
      refine Bool.eq_false_iff.2 fun hends => ?_
      have hsome := hfatal.2 ⟨x, hx, hends⟩
      rw [hnone] at hsome
      cases hsome
    have hslots' : P.slots = base.map (Slot.past o (done ++ [p])) := by
      rw [((hphase.verdict ho.of_append_left).2 hnone).1, hslots, List.nil_append, List.map_map]
      exact List.map_congr_left fun s _ => (Slot.past_snoc o s p done).symm
    have hrest := ih ho.of_append_right
      (by rw [hsplit, List.append_assoc, List.singleton_append]) hslots'
    rw [calleesOf_append, hcallees, hrest, List.flatMap_cons, upTo_append hsafe, upTo_eq_self hsafe,
      List.filterMap_append]

end

/-! ### Launches -/

namespace Ensemble

variable {cast : Cast} {e : Ensemble} {o : Outcomes}

theorem stepsOf_asserted (o : Outcomes) (slots : List Slot) :
    stepsOf o (slots.map fun s => s.reached .assertion) = stepsOf o slots := by
  funext p
  rw [stepsOf, List.filter_map, List.map_map]
  rfl

theorem isFatal_assertion (s : Slot) :
    e.isFatal cast o (.call (s.hook .assertion)) = (o.failure? s.module .assertion).isSome := by
  simp [isFatal, Slot.hook]

theorem isFatal_assertion_of_unasserted? (h : e.unasserted? cast o = none) :
    ∀ x ∈ e.slots.map (fun s => LaunchStep.call (s.hook .assertion)),
      e.isFatal cast o x = false := by
  intro x hx
  obtain ⟨s, hs, rfl⟩ := List.mem_map.1 hx
  rw [unasserted?_eq] at h
  have hnone := Option.map_eq_none_iff.1 (List.findSome?_eq_none_iff.1 h s hs)
  rw [isFatal_assertion, hnone]
  rfl

theorem isFatal_prepare :
    ∀ x ∈ e.listeners.map (fun l => LaunchStep.call (.prepare l)), e.isFatal cast o x = false := by
  intro x hx
  obtain ⟨l, _, rfl⟩ := List.mem_map.1 hx
  rfl

/-- The calls of the assertions are their steps, up to and with the first fatal one. -/
theorem assertion_callees {ds : List Deed} {P : Progress}
    (h : AssertionCourse cast [] e.slots ds P) (ho : Follows o (callsOf ds)) :
    calleesOf ds = (upTo (e.isFatal cast o)
      (e.slots.map fun s => .call (s.hook .assertion))).filterMap LaunchStep.callee? := by
  rw [h.callees ho, upTo_map, List.filterMap_map]
  simp only [isFatal_assertion]
  exact (congrFun List.filterMap_eq_map _).symm

/-- The calls of a launch in which every assertion holds and no required kind is missing. -/
theorem startup_callees (harranged : e.Arranged cast) (huntouched : e.Untouched)
    {ds ds' ds'' : List Deed} {P Q : Progress} (hassert : AssertionCourse cast [] e.slots ds P)
    (haborted : P.aborted = none)
    (hmissing : ({ e with slots := P.slots } : Ensemble).missingKind? = none)
    (hprepare : PreparationCourse e.listeners ds')
    (hphases : SequenceCourse cast P.slots [] Phase.startup ds'' Q)
    (ho : Follows o (callsOf (ds ++ ds' ++ ds''))) :
    calleesOf (ds ++ ds' ++ ds'') = e.plannedCalls cast o := by
  rw [callsOf_append, callsOf_append] at ho
  obtain ⟨hnone, hP, hkinds⟩ :=
    harranged.asserted hassert haborted ho.of_append_left.of_append_left
  rw [hkinds] at hmissing
  rw [hP] at hphases
  have hmandatory : ∀ s ∈ e.slots.map fun s => s.reached .assertion,
      e.isMandatory cast s.module = s.info.mandatory := by
    intro s hs
    obtain ⟨s', hs', rfl⟩ := List.mem_map.1 hs
    exact harranged.isMandatory (s := s') hs'
  have hstartup := hphases.callees_eq (e := e) ho.of_append_right (List.nil_append _).symm
    (active_asserted huntouched) hmandatory (List.map_id _).symm
  rw [stepsOf_asserted] at hstartup
  have hassertions := assertion_callees hassert ho.of_append_left.of_append_left
  have hsafe := isFatal_assertion_of_unasserted? hnone
  have hpresence : ∀ x ∈ [LaunchStep.presence], e.isFatal cast o x = false := by
    intro x hx
    rw [List.mem_singleton.1 hx, isFatal, hmissing]
    rfl
  have hprepared : (e.listeners.map fun l => LaunchStep.call (.prepare l)).filterMap
      LaunchStep.callee? = e.listeners.map .prepare := by
    rw [List.filterMap_map]
    exact congrFun List.filterMap_eq_map _
  rw [upTo_eq_self hsafe] at hassertions
  rw [calleesOf_append, calleesOf_append, hassertions, hprepare.callees, hstartup, plannedCalls,
    agenda, upTo_append hsafe, ← List.singleton_append, upTo_append hpresence,
    upTo_append isFatal_prepare, List.filterMap_append, List.filterMap_append, List.filterMap_append,
    hprepared, List.append_assoc]
  rfl

/-- The calls of a launch are the planned ones. -/
theorem calls_of_course {ds : List Deed} {r : Except LaunchFailure LaunchSummary × Ensemble}
    (harranged : e.Arranged cast) (huntouched : e.Untouched) (h : LaunchCourse cast e ds r)
    (ho : Follows o (callsOf ds)) : calleesOf ds = e.plannedCalls cast o := by
  cases h with
  | repeated hlaunched => simp [huntouched.launched] at hlaunched
  | asserted _ hassert haborted =>
    have hverdict := (hassert.verdict ho).1
    rw [haborted] at hverdict
    obtain ⟨s, hs, hfails⟩ := List.exists_of_findSome?_eq_some hverdict.symm
    have hends : e.isFatal cast o (.call (s.hook .assertion)) = true := by
      rw [isFatal_assertion]
      cases hf : o.failure? s.module .assertion with
      | none => simp [hf] at hfails
      | some f => rfl
    rw [calleesOf_stored, assertion_callees hassert ho, plannedCalls, agenda,
      upTo_append_of_mem (List.mem_map_of_mem hs) hends]
  | missing _ hassert haborted hmissing =>
    obtain ⟨hnone, _, hkinds⟩ := harranged.asserted hassert haborted ho
    have hsafe := isFatal_assertion_of_unasserted? hnone
    rw [hkinds] at hmissing
    rw [calleesOf_stored, assertion_callees hassert ho, plannedCalls, agenda, upTo_append hsafe,
      upTo_eq_self hsafe, upTo, isFatal, hmissing]
    simp [LaunchStep.callee?]
  | aborted _ hassert haborted hmissing hprepare hphases _ =>
    rw [List.cons_append, List.cons_append] at ho ⊢
    exact startup_callees harranged huntouched hassert haborted hmissing hprepare hphases ho
  | completed _ hassert haborted hmissing hprepare hphases _ =>
    rw [List.cons_append, List.cons_append] at ho ⊢
    exact startup_callees harranged huntouched hassert haborted hmissing hprepare hphases ho

end Ensemble

end Orchestra
