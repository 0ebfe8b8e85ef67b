import Orchestra.Proofs.Tidings

/-!
# What comes of a hook that fails

Whoever calls hooks goes on when one of them has failed, each phase in its own way.  A failure among the deeds of
a course is told of by what comes before and after it.

* `AssertionAftermath`, `PreparationAftermath`, `PhaseAftermath`, `ClosingAftermath` — what is made of a failure
  and what is done after it;
* `AssertionCourse.aftermath`, `PreparationCourse.aftermath`, `PhaseCourse.aftermath`, `StoppingCourse.aftermath`
  — every failure in a course has its aftermath.
-/

namespace Orchestra

variable {cast : Cast} {callee : Callee} {f : HookFailure} {ds ds' : List Deed}

/-- The launch ends with a failing assertion. -/
structure AssertionAftermath (cast : Cast) (slots : List Slot) (callee : Callee) (f : HookFailure)
    (ds' : List Deed) (P : Progress) : Prop where
  nothing : ds' = []
  fault : ∃ s ∈ slots, callee = s.hook .assertion ∧ P.aborted = some (.assertionFailed (cast.name s.module) f)

/-- A listener that fails to prepare is passed over. -/
def PreparationAftermath (ls : List ListenerId) (callee : Callee) (ds' : List Deed) : Prop :=
  ∃ before l rest, ls = before ++ l :: rest ∧ callee = .prepare l ∧ PreparationCourse rest ds'

/-- What a phase makes of a slot whose hook fails, after some slots and with some faults before, and what it does
with the rest of the slots. -/
inductive PhasePolicy (cast : Cast) (p : Phase) (passed : List Slot) (faults : List Fault) (s : Slot)
    (f : HookFailure) (rest : List Slot) : List Deed → Progress → Prop where
  /-- The launch is given up, and nobody else is called. -/
  | aborts : p.abortsLaunch = true → s.info.mandatory = true →
      PhasePolicy cast p passed faults s f rest []
        ⟨passed ++ s :: rest, faults, some (.sequenceAborted (cast.name s.module) p f)⟩
  /-- The module is left out from then on. -/
  | leavesOut {ds : List Deed} {P : Progress} : p.abortsLaunch = true → s.info.mandatory = false →
      PhaseCourse cast p (passed ++ [s.leftOut]) (faults ++ [⟨cast.name s.module, p, f, true⟩]) rest ds P →
      PhasePolicy cast p passed faults s f rest (.stored (passed ++ s.leftOut :: rest) :: ds) P
  /-- The module goes on. -/
  | notes {ds : List Deed} {P : Progress} : p.abortsLaunch = false →
      PhaseCourse cast p (passed ++ [s.reached p]) (faults ++ [⟨cast.name s.module, p, f, false⟩]) rest ds P →
      PhasePolicy cast p passed faults s f rest (.stored (passed ++ s.reached p :: rest) :: ds) P

/-- A hook of one of the slots has failed after some deeds of a phase; the calls before have made their faults, and
this one meets with the policy. -/
def PhaseAftermath (cast : Cast) (p : Phase) (slots : List Slot) (faults : List Fault) (callee : Callee)
    (f : HookFailure) (ds ds' : List Deed) (P : Progress) : Prop :=
  ∃ passed before s rest, slots = before ++ s :: rest ∧ s.active = true ∧ callee = s.hook p ∧
    PhasePolicy cast p passed (faults ++ callFaults cast (callsOf ds)) s f rest ds' P

/-- A shutdown hook has failed after some deeds of a shutdown; the calls before have made their faults and this
one makes another, and the hooks of the other slots follow. -/
def ClosingAftermath (cast : Cast) (faults : List Fault) (callee : Callee) (f : HookFailure) (ds ds' : List Deed)
    (c' : Closing) : Prop :=
  ∃ (i : Nat) (rest : List Nat) (slots : List Slot) (ran : Nat) (s : Slot) (later : List Deed),
    slots[i]? = some s ∧ s.isDue = true ∧ callee = s.hook .shutdown ∧
    ds' = .stored (slots.set i (s.reached .shutdown)) :: later ∧
    StoppingCourse cast rest ⟨slots.set i (s.reached .shutdown), ran + 1, faults ++ callFaults cast (callsOf ds) ++
      [⟨cast.name s.module, .shutdown, f, false⟩]⟩ later c'

/-! ### Failures in a course -/

/-- Where a failure stands among deeds that begin with a call. -/
theorem called_cases {c : Callee} {o : Outcome} {es : List Deed}
    (h : .called c o :: es = ds ++ .called callee (.error f) :: ds') :
    (ds = [] ∧ c = callee ∧ o = .error f ∧ es = ds') ∨
      ∃ before, ds = .called c o :: before ∧ es = before ++ .called callee (.error f) :: ds' := by
  cases ds with
  | nil =>
    obtain ⟨heq, hes⟩ := List.cons.inj h
    cases heq
    exact .inl ⟨rfl, rfl, rfl, hes⟩
  | cons d before =>
    obtain ⟨rfl, hes⟩ := List.cons.inj h
    exact .inr ⟨before, rfl, hes⟩

/-- Where it stands if the slots are stored after the call. -/
theorem called_stored_cases {c : Callee} {o : Outcome} {slots : List Slot} {es : List Deed}
    (h : .called c o :: .stored slots :: es = ds ++ .called callee (.error f) :: ds') :
    (ds = [] ∧ c = callee ∧ o = .error f ∧ .stored slots :: es = ds') ∨
      ∃ before, ds = .called c o :: .stored slots :: before ∧ es = before ++ .called callee (.error f) :: ds' := by
  rcases called_cases h with hfirst | ⟨before, rfl, hes⟩
  · exact .inl hfirst
  · cases before with
    | nil => cases hes
    | cons d before =>
      obtain ⟨rfl, hes'⟩ := List.cons.inj hes
      exact .inr ⟨before, rfl, hes'⟩

theorem AssertionCourse.aftermath {passed slots : List Slot} {P : Progress}
    (h : AssertionCourse cast passed slots (ds ++ .called callee (.error f) :: ds') P) :
    AssertionAftermath cast slots callee f ds' P := by
  generalize hes : ds ++ .called callee (.error f) :: ds' = es at h
  induction h generalizing ds with
  | done => exact absurd hes (List.append_ne_nil_of_right_ne_nil _ (List.cons_ne_nil _ _))
  | failed passed rest s f =>
    rcases called_cases hes.symm with ⟨-, rfl, heq, rfl⟩ | ⟨before, -, hnil⟩
    · cases heq
      exact ⟨rfl, s, List.mem_cons_self, rfl, rfl⟩
    · exact absurd hnil.symm (List.append_ne_nil_of_right_ne_nil _ (List.cons_ne_nil _ _))
  | held _ ih =>
    rcases called_stored_cases hes.symm with ⟨-, -, heq, -⟩ | ⟨before, -, hrest⟩
    · cases heq
    · obtain ⟨hnobody, s, hs, hcallee, haborted⟩ := ih hrest.symm
      exact ⟨hnobody, s, List.mem_cons_of_mem _ hs, hcallee, haborted⟩

theorem PreparationCourse.aftermath {ls : List ListenerId}
    (h : PreparationCourse ls (ds ++ .called callee (.error f) :: ds')) : PreparationAftermath ls callee ds' := by
  generalize hes : ds ++ .called callee (.error f) :: ds' = es at h
  induction h generalizing ds with
  | done => exact absurd hes (List.append_ne_nil_of_right_ne_nil _ (List.cons_ne_nil _ _))
  | prepared l o hrest ih =>
    rcases called_cases hes.symm with ⟨-, rfl, -, rfl⟩ | ⟨before, -, hlater⟩
    · exact ⟨[], l, _, rfl, rfl, hrest⟩
    · obtain ⟨before, l', rest, rfl, hcallee, hcourse⟩ := ih hlater.symm
      exact ⟨l :: before, l', rest, rfl, hcallee, hcourse⟩

/-- **A failing hook meets with the policy of its phase**. -/
theorem PhaseCourse.aftermath {p : Phase} {passed slots : List Slot} {faults : List Fault} {P : Progress}
    (h : PhaseCourse cast p passed faults slots (ds ++ .called callee (.error f) :: ds') P) :
    PhaseAftermath cast p slots faults callee f ds ds' P := by
  generalize hes : ds ++ .called callee (.error f) :: ds' = es at h
  induction h generalizing ds with
  | done => exact absurd hes (List.append_ne_nil_of_right_ne_nil _ (List.cons_ne_nil _ _))
  | @absent _ _ _ s _ _ _ _ ih =>
    obtain ⟨passed', before, s', rest, rfl, hs'⟩ := ih hes
    exact ⟨passed', s :: before, s', rest, rfl, hs'⟩
  | @ran _ _ _ s _ _ _ _ ih =>
    rcases called_stored_cases hes.symm with ⟨-, -, heq, -⟩ | ⟨before, rfl, hrest⟩
    · cases heq
    · obtain ⟨passed', before', s', rest, rfl, hactive, hcallee, hpolicy⟩ := ih hrest.symm
      refine ⟨passed', s :: before', s', rest, rfl, hactive, hcallee, ?_⟩
      rwa [callsOf_called, callsOf_stored, callFaults_ok]
  | @aborted passed rest faults s f hactive hphase hmandatory =>
    rcases called_cases hes.symm with ⟨rfl, rfl, heq, rfl⟩ | ⟨before, -, hnil⟩
    · cases heq
      refine ⟨passed, [], s, rest, rfl, hactive, rfl, ?_⟩
      rw [callsOf_nil, callFaults_nil, List.append_nil]
      exact .aborts hphase hmandatory
    · exact absurd hnil.symm (List.append_ne_nil_of_right_ne_nil _ (List.cons_ne_nil _ _))
  | @leftOut passed rest faults s _ _ f hactive hphase hmandatory hcourse ih =>
    rcases called_stored_cases hes.symm with ⟨rfl, rfl, heq, rfl⟩ | ⟨before, rfl, hrest⟩
    · cases heq
      refine ⟨passed, [], s, rest, rfl, hactive, rfl, ?_⟩
      rw [callsOf_nil, callFaults_nil, List.append_nil]
      exact .leavesOut hphase hmandatory hcourse
    · obtain ⟨passed', before', s', rest, rfl, hactive', hcallee, hpolicy⟩ := ih hrest.symm
      refine ⟨passed', s :: before', s', rest, rfl, hactive', hcallee, ?_⟩
      rw [List.append_assoc, List.singleton_append] at hpolicy
      rwa [callsOf_called, callsOf_stored, callFaults_error, hphase]
  | @noted passed rest faults s _ _ f hactive hphase hcourse ih =>
    rcases called_stored_cases hes.symm with ⟨rfl, rfl, heq, rfl⟩ | ⟨before, rfl, hrest⟩
    · cases heq
      refine ⟨passed, [], s, rest, rfl, hactive, rfl, ?_⟩
      rw [callsOf_nil, callFaults_nil, List.append_nil]
      exact .notes hphase hcourse
    · obtain ⟨passed', before', s', rest, rfl, hactive', hcallee, hpolicy⟩ := ih hrest.symm
      refine ⟨passed', s :: before', s', rest, rfl, hactive', hcallee, ?_⟩
      rw [List.append_assoc, List.singleton_append] at hpolicy
      rwa [callsOf_called, callsOf_stored, callFaults_error, hphase]

theorem StoppingCourse.aftermath {positions : List Nat} {c c' : Closing}
    (h : StoppingCourse cast positions c (ds ++ .called callee (.error f) :: ds') c') :
    ClosingAftermath cast c.failures callee f ds ds' c' := by
  generalize hes : ds ++ .called callee (.error f) :: ds' = es at h
  induction h generalizing ds with
  | done => exact absurd hes (List.append_ne_nil_of_right_ne_nil _ (List.cons_ne_nil _ _))
  | nobody _ _ ih => exact ih hes
  | idle _ _ _ ih => exact ih hes
  | @stopped i rest c _ _ s o hs hdue hcourse ih =>
    rcases called_stored_cases hes.symm with ⟨rfl, rfl, rfl, rfl⟩ | ⟨before, rfl, hrest⟩
    · refine ⟨i, rest, c.slots, c.ran, s, _, hs, hdue, rfl, rfl, ?_⟩
      rw [callsOf_nil, callFaults_nil, List.append_nil]
      exact hcourse
    · obtain ⟨i', rest', slots, ran, s', later, hs', hdue', hcallee, hlater, hcourse'⟩ := ih hrest.symm
      refine ⟨i', rest', slots, ran, s', later, hs', hdue', hcallee, hlater, ?_⟩
      rw [callsOf_called, callsOf_stored]
      cases o with
      | ok =>
        rw [closingFault, List.append_nil] at hcourse'
        rwa [callFaults_ok]
      | error e =>
        rw [closingFault, List.append_assoc c.failures, List.singleton_append] at hcourse'
        rwa [callFaults_error]

end Orchestra
