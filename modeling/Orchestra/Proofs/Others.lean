import Orchestra.Proofs.LaunchVerdict

/-!
# What is done with the others

The phases of a launch go through the slots one after another.  What they do with the slots of the other modules
is what they would do if an optional module were not there.

* `othersSlots`, `othersCalls` — slots and calls without those of a module;
* `GoesOn`, `PhaseCourse.cons_cases` — what a phase does with its first slot;
* `PhaseCourse.without`, `SequenceCourse.without` — what phases do with the others are phases of the others;
* `AssertionCourse.unique`, `PhaseCourse.unique`, `SequenceCourse.unique` — the outcomes settle a course.
-/

namespace Orchestra

variable {cast : Cast} {X : ListenerId}

/-! ### The others -/

/-- The slots of the other modules. -/
def othersSlots (X : ListenerId) (slots : List Slot) : List Slot := slots.filter fun s => s.module ≠ X

/-- Whether a hook of another module is called. -/
def Callee.isOthersHook (X : ListenerId) : Callee → Bool
  | hook m _ _ => m ≠ X
  | _ => false

/-- The calls of hooks of the other modules, with what came of them. -/
def othersCalls (X : ListenerId) (calls : List (Callee × Outcome)) : List (Callee × Outcome) :=
  calls.filter fun c => c.1.isOthersHook X

/-- A module is not mandatory. -/
def IsOptional (X : ListenerId) (slots : List Slot) : Prop :=
  ∀ s ∈ slots, s.module = X → s.info.mandatory = false

instance (X : ListenerId) (slots : List Slot) : Decidable (IsOptional X slots) :=
  inferInstanceAs (Decidable (∀ s ∈ slots, s.module = X → s.info.mandatory = false))

section

variable {s : Slot} {slots slots' : List Slot} {calls calls' : List (Callee × Outcome)}

@[simp] theorem othersSlots_nil : othersSlots X [] = [] := rfl

theorem othersSlots_cons_self (h : s.module = X) : othersSlots X (s :: slots) = othersSlots X slots := by
  simp [othersSlots, h]

theorem othersSlots_cons_of_ne (h : s.module ≠ X) :
    othersSlots X (s :: slots) = s :: othersSlots X slots := by
  simp [othersSlots, h]

theorem othersSlots_append : othersSlots X (slots ++ slots') = othersSlots X slots ++ othersSlots X slots' :=
  List.filter_append ..

theorem othersSlots_concat_self (h : s.module = X) : othersSlots X (slots ++ [s]) = othersSlots X slots := by
  rw [othersSlots_append, othersSlots_cons_self h, othersSlots_nil, List.append_nil]

theorem othersSlots_concat_of_ne (h : s.module ≠ X) :
    othersSlots X (slots ++ [s]) = othersSlots X slots ++ [s] := by
  rw [othersSlots_append, othersSlots_cons_of_ne h, othersSlots_nil]

@[simp] theorem othersCalls_nil : othersCalls X [] = [] := rfl

theorem othersCalls_append :
    othersCalls X (calls ++ calls') = othersCalls X calls ++ othersCalls X calls' :=
  List.filter_append ..

theorem othersCalls_cons_self {p : Phase} {x : Outcome} (h : s.module = X) :
    othersCalls X ((s.hook p, x) :: calls) = othersCalls X calls := by
  simp [othersCalls, Slot.hook, Callee.isOthersHook, h]

theorem othersCalls_cons_of_ne {p : Phase} {x : Outcome} (h : s.module ≠ X) :
    othersCalls X ((s.hook p, x) :: calls) = (s.hook p, x) :: othersCalls X calls := by
  simp [othersCalls, Slot.hook, Callee.isOthersHook, h]

theorem IsOptional.tail (h : IsOptional X (s :: slots)) : IsOptional X slots :=
  fun t ht => h t (List.mem_cons_of_mem s ht)

/-- Slots that go on are still those of the same modules. -/
theorem IsOptional.replace {t : Slot} (h : IsOptional X (slots ++ s :: slots')) (hmodule : t.module = s.module)
    (hinfo : t.info = s.info) : IsOptional X (slots ++ [t] ++ slots') := by
  intro u hu
  rw [List.append_assoc, List.singleton_append] at hu
  rcases List.mem_append.1 hu with hu | hu
  · exact h u (List.mem_append_left _ hu)
  · rcases List.mem_cons.1 hu with rfl | hu
    · rw [hmodule, hinfo]
      exact h s (List.mem_append_right _ List.mem_cons_self)
    · exact h u (List.mem_append_right _ (List.mem_cons_of_mem s hu))

end

/-! ### The first slot of a phase -/

/-- How a phase goes on with an active slot whose hook has come to something: the slot is another then, and there
may be a fault. -/
inductive GoesOn (cast : Cast) (p : Phase) (s : Slot) : Outcome → Slot → List Fault → Prop where
  | ran : GoesOn cast p s (.ok ()) (s.reached p) []
  | leftOut (f : HookFailure) : p.abortsLaunch = true → s.info.mandatory = false →
      GoesOn cast p s (.error f) s.leftOut [⟨cast.name s.module, p, f, true⟩]
  | noted (f : HookFailure) : p.abortsLaunch = false →
      GoesOn cast p s (.error f) (s.reached p) [⟨cast.name s.module, p, f, false⟩]

section

variable {p : Phase} {s t t' : Slot} {x : Outcome} {fs fs' : List Fault}

theorem GoesOn.module (h : GoesOn cast p s x t fs) : t.module = s.module := by
  cases h <;> rfl

theorem GoesOn.info (h : GoesOn cast p s x t fs) : t.info = s.info := by
  cases h <;> rfl

/-- What a hook comes to settles how its slot goes on. -/
theorem GoesOn.unique (h : GoesOn cast p s x t fs) (h' : GoesOn cast p s x t' fs') : t = t' ∧ fs = fs' := by
  cases h with
  | ran =>
    cases h'
    exact ⟨rfl, rfl⟩
  | leftOut f hphase _ =>
    cases h' with
    | leftOut => exact ⟨rfl, rfl⟩
    | noted _ hphase' => cases hphase.symm.trans hphase'
  | noted f hphase =>
    cases h' with
    | leftOut _ hphase' _ => cases hphase.symm.trans hphase'
    | noted => exact ⟨rfl, rfl⟩

/-- A launch that is aborted does not go on. -/
theorem GoesOn.not_aborts {f : HookFailure} (h : GoesOn cast p s (.error f) t fs)
    (hphase : p.abortsLaunch = true) : s.info.mandatory = false := by
  cases h with
  | leftOut _ _ hoptional => exact hoptional
  | noted _ hphase' => cases hphase.symm.trans hphase'

variable {passed rest : List Slot} {faults : List Fault} {ds : List Deed} {P : Progress}

theorem PhaseCourse.of_goesOn (hactive : s.active = true) (hgo : GoesOn cast p s x t fs)
    (h : PhaseCourse cast p (passed ++ [t]) (faults ++ fs) rest ds P) :
    PhaseCourse cast p passed faults (s :: rest)
      (.called (s.hook p) x :: .stored (passed ++ t :: rest) :: ds) P := by
  cases hgo with
  | ran =>
    rw [List.append_nil] at h
    exact .ran hactive h
  | leftOut f hphase hoptional => exact .leftOut f hactive hphase hoptional h
  | noted f hphase => exact .noted f hactive hphase h

/-- What a phase does with its first slot: it passes over it, it is aborted by it, or it goes on. -/
theorem PhaseCourse.cons_cases (h : PhaseCourse cast p passed faults (s :: rest) ds P) :
    (s.active = false ∧ PhaseCourse cast p (passed ++ [s]) faults rest ds P) ∨
    (∃ f, s.active = true ∧ p.abortsLaunch = true ∧ s.info.mandatory = true ∧
      ds = [.called (s.hook p) (.error f)] ∧
      P = ⟨passed ++ s :: rest, faults, some (.sequenceAborted (cast.name s.module) p f)⟩) ∨
    ∃ x t fs ds', s.active = true ∧ GoesOn cast p s x t fs ∧
      ds = .called (s.hook p) x :: .stored (passed ++ t :: rest) :: ds' ∧
      PhaseCourse cast p (passed ++ [t]) (faults ++ fs) rest ds' P := by
  cases h with
  | absent hactive hrest => exact .inl ⟨hactive, hrest⟩
  | aborted _ _ _ f hactive hphase hmandatory => exact .inr (.inl ⟨f, hactive, hphase, hmandatory, rfl, rfl⟩)
  | ran hactive hrest =>
    exact .inr (.inr ⟨.ok (), s.reached p, [], _, hactive, .ran, rfl, by rwa [List.append_nil]⟩)
  | leftOut f hactive hphase hoptional hrest =>
    exact .inr (.inr ⟨.error f, s.leftOut, _, _, hactive, .leftOut f hphase hoptional, rfl, hrest⟩)
  | noted f hactive hphase hrest =>
    exact .inr (.inr ⟨.error f, s.reached p, _, _, hactive, .noted f hphase, rfl, hrest⟩)

end

/-! ### Phases without the module -/

section

variable {p : Phase} {ps : List Phase} {passed rest slots : List Slot} {faults : List Fault}
  {ds : List Deed} {P : Progress}

/-- What a phase does with the others is a phase of the others: an optional module aborts nothing. -/
theorem PhaseCourse.without (h : PhaseCourse cast p passed faults rest ds P) (hX : IsOptional X rest)
    (faults' : List Fault) : ∃ ds' P',
      PhaseCourse cast p (othersSlots X passed) faults' (othersSlots X rest) ds' P' ∧
      callsOf ds' = othersCalls X (callsOf ds) ∧ P'.slots = othersSlots X P.slots ∧
      P'.aborted = P.aborted := by
  induction rest generalizing passed faults faults' ds with
  | nil =>
    cases h
    exact ⟨[], _, .done _ faults', rfl, rfl, rfl⟩
  | cons s rest ih =>
    rcases h.cons_cases with ⟨hactive, hrest⟩ | ⟨f, hactive, hphase, hmandatory, rfl, rfl⟩ |
      ⟨x, t, fs, ds, hactive, hgo, rfl, hrest⟩
    · by_cases hs : s.module = X
      · rw [othersSlots_cons_self hs, ← othersSlots_concat_self hs]
        exact ih hrest hX.tail faults'
      · rw [othersSlots_cons_of_ne hs]
        obtain ⟨ds', P', hphase, hsame⟩ := ih hrest hX.tail faults'
        rw [othersSlots_concat_of_ne hs] at hphase
        exact ⟨ds', P', .absent hactive hphase, hsame⟩
    · have hs : s.module ≠ X := by
        intro hs
        rw [hX s List.mem_cons_self hs] at hmandatory
        cases hmandatory
      rw [callsOf_called, othersCalls_cons_of_ne hs, othersSlots_append, othersSlots_cons_of_ne hs]
      exact ⟨_, _, .aborted _ _ faults' f hactive hphase hmandatory, rfl, rfl, rfl⟩
    · rw [callsOf_called, callsOf_stored]
      by_cases hs : s.module = X
      · rw [othersSlots_cons_self hs, othersCalls_cons_self hs,
          ← othersSlots_concat_self (hgo.module.trans hs)]
        exact ih hrest hX.tail faults'
      · rw [othersSlots_cons_of_ne hs, othersCalls_cons_of_ne hs]
        obtain ⟨ds', P', hphase, hcalls, hsame⟩ := ih hrest hX.tail (faults' ++ fs)
        rw [othersSlots_concat_of_ne fun ht => hs (hgo.module ▸ ht)] at hphase
        exact ⟨_, P', hphase.of_goesOn hactive hgo, congrArg _ hcalls, hsame⟩

theorem AssertionCourse.isOptional (h : AssertionCourse cast passed rest ds P)
    (hX : IsOptional X (passed ++ rest)) : IsOptional X P.slots := by
  induction h with
  | done passed => rwa [List.append_nil] at hX
  | failed passed rest s f => exact hX
  | held _ ih => exact ih (hX.replace rfl rfl)

theorem PhaseCourse.isOptional (h : PhaseCourse cast p passed faults rest ds P)
    (hX : IsOptional X (passed ++ rest)) : IsOptional X P.slots := by
  induction rest generalizing passed faults ds with
  | nil =>
    cases h
    rwa [List.append_nil] at hX
  | cons s rest ih =>
    rcases h.cons_cases with ⟨_, hrest⟩ | ⟨f, _, _, _, rfl, rfl⟩ | ⟨x, t, fs, ds, _, hgo, rfl, hrest⟩
    · exact ih hrest (hX.replace rfl rfl)
    · exact hX
    · exact ih hrest (hX.replace hgo.module hgo.info)

/-- What phases in sequence do with the others are phases of the others. -/
theorem SequenceCourse.without (h : SequenceCourse cast slots faults ps ds P) (hX : IsOptional X slots)
    (faults' : List Fault) : ∃ ds' P', SequenceCourse cast (othersSlots X slots) faults' ps ds' P' ∧
      callsOf ds' = othersCalls X (callsOf ds) ∧ P'.slots = othersSlots X P.slots ∧
      P'.aborted = P.aborted := by
  induction h generalizing faults' with
  | done slots faults => exact ⟨[], _, .done _ faults', rfl, rfl, rfl⟩
  | aborted hphase hsome =>
    obtain ⟨ds', P', hphase', hcalls, hslots, haborted⟩ := hphase.without hX faults'
    exact ⟨ds', P', .aborted hphase' (haborted ▸ hsome), hcalls, hslots, haborted⟩
  | @next slots faults p rest ds ds₁ P P₁ hphase hnone _ ih =>
    obtain ⟨ds', P', hphase', hcalls, hslots, haborted⟩ := hphase.without hX faults'
    obtain ⟨ds₁', P₁', hrest, hcalls', hsame⟩ := ih (hphase.isOptional hX) P'.faults
    rw [← hslots] at hrest
    refine ⟨_, P₁', .next hphase' (haborted.trans hnone) hrest, ?_, hsame⟩
    rw [callsOf_append, callsOf_append, othersCalls_append, hcalls, hcalls']

end

/-! ### The outcomes settle a course -/

section

variable {o : Outcomes} {p : Phase} {ps : List Phase} {passed rest slots : List Slot}
  {faults : List Fault} {ds ds' : List Deed} {P P' : Progress}

theorem Follows.head {s : Slot} {x : Outcome} {calls : List (Callee × Outcome)}
    (h : Follows o ((s.hook p, x) :: calls)) : x = o s.module p :=
  h _ _ _ _ List.mem_cons_self

theorem AssertionCourse.unique (h : AssertionCourse cast passed rest ds P) (ho : Follows o (callsOf ds))
    (h' : AssertionCourse cast passed rest ds' P') (ho' : Follows o (callsOf ds')) : ds = ds' ∧ P = P' := by
  induction h generalizing ds' with
  | done passed =>
    cases h'
    exact ⟨rfl, rfl⟩
  | failed passed rest s f =>
    cases h' with
    | failed _ _ _ f' =>
      cases ho.head.trans ho'.head.symm
      exact ⟨rfl, rfl⟩
    | held _ => cases ho.head.trans ho'.head.symm
  | held _ ih =>
    cases h' with
    | failed _ _ _ f' => cases ho.head.trans ho'.head.symm
    | held hrest' =>
      obtain ⟨rfl, rfl⟩ := ih ho.of_cons hrest' ho'.of_cons
      exact ⟨rfl, rfl⟩

theorem PhaseCourse.unique (h : PhaseCourse cast p passed faults rest ds P) (ho : Follows o (callsOf ds))
    (h' : PhaseCourse cast p passed faults rest ds' P') (ho' : Follows o (callsOf ds')) :
    ds = ds' ∧ P = P' := by
  induction rest generalizing passed faults ds ds' with
  | nil =>
    cases h
    cases h'
    exact ⟨rfl, rfl⟩
  | cons s rest ih =>
    rcases h.cons_cases with ⟨hactive, hrest⟩ | ⟨f, hactive, hphase, hmandatory, rfl, rfl⟩ |
      ⟨x, t, fs, ds, hactive, hgo, rfl, hrest⟩ <;>
    rcases h'.cons_cases with ⟨hactive', hrest'⟩ | ⟨f', hactive', hphase', hmandatory', rfl, rfl⟩ |
      ⟨x', t', fs', ds', hactive', hgo', rfl, hrest'⟩
    case inl.inl => exact ih hrest ho hrest' ho'
    case inr.inl.inr.inl =>
      cases ho.head.trans ho'.head.symm
      exact ⟨rfl, rfl⟩
    case inr.inl.inr.inr =>
      obtain rfl := ho'.head.trans ho.head.symm
      cases hmandatory.symm.trans (hgo'.not_aborts hphase)
    case inr.inr.inr.inl =>
      obtain rfl := ho.head.trans ho'.head.symm
      cases hmandatory'.symm.trans (hgo.not_aborts hphase')
    case inr.inr.inr.inr =>
      obtain rfl := ho.head.trans ho'.head.symm
      obtain ⟨rfl, rfl⟩ := hgo.unique hgo'
      obtain ⟨rfl, rfl⟩ := ih hrest ho.of_cons hrest' ho'.of_cons
      exact ⟨rfl, rfl⟩
    all_goals cases hactive.symm.trans hactive'

theorem SequenceCourse.unique (h : SequenceCourse cast slots faults ps ds P) (ho : Follows o (callsOf ds))
    (h' : SequenceCourse cast slots faults ps ds' P') (ho' : Follows o (callsOf ds')) :
    ds = ds' ∧ P = P' := by
  induction h generalizing ds' with
  | done slots faults =>
    cases h'
    exact ⟨rfl, rfl⟩
  | aborted hphase hsome =>
    cases h' with
    | aborted hphase' _ => exact hphase.unique ho hphase' ho'
    | next hphase' hnone' _ =>
      rw [callsOf_append] at ho'
      obtain ⟨rfl, rfl⟩ := hphase.unique ho hphase' ho'.of_append_left
      rw [hnone'] at hsome
      cases hsome
  | next hphase hnone _ ih =>
    rw [callsOf_append] at ho
    cases h' with
    | aborted hphase' hsome' =>
      obtain ⟨rfl, rfl⟩ := hphase.unique ho.of_append_left hphase' ho'
      rw [hnone] at hsome'
      cases hsome'
    | next hphase' _ hrest' =>
      rw [callsOf_append] at ho'
      obtain ⟨rfl, rfl⟩ := hphase.unique ho.of_append_left hphase' ho'.of_append_left
      obtain ⟨rfl, rfl⟩ := ih ho.of_append_right hrest' ho'.of_append_right
      exact ⟨rfl, rfl⟩

end

end Orchestra
