import Orchestra.Proofs.Story

/-!
# Stages move forward

Whatever the hooks come to, the slots that are stored on the way only move forward, and what has been
called can be read off them.

* `Advances` — the same modules, each at least as far; `Path` — slots stored one after another;
* `LaunchCourse.path`, `StoppingCourse.path` — a launch and a shutdown are paths;
* `Slot.Accounted` — a slot has begun if and only if its module's `init` hook was called and held;
* `LaunchCourse.accounted` — so it is after a launch.
-/

namespace Orchestra

/-! ### Paths -/

theorem Stage.le_shutdown (a : Stage) : a ≤ .shutdown := by
  cases a <;> decide

/-- The same modules, each at least as far as before. -/
def Advances (slots slots' : List Slot) : Prop :=
  List.Forall₂ (fun s s' => s'.module = s.module ∧ s.stage ≤ s'.stage) slots slots'

theorem Advances.refl (slots : List Slot) : Advances slots slots := by
  induction slots with
  | nil => exact .nil
  | cons s rest ih => exact .cons ⟨rfl, Nat.le_refl _⟩ ih

theorem Advances.trans {a b c : List Slot} (h : Advances a b) (h' : Advances b c) : Advances a c := by
  induction h generalizing c with
  | nil => exact h'
  | cons hs _ ih =>
    cases h' with
    | cons hs' hrest =>
      exact .cons ⟨hs'.1.trans hs.1, Nat.le_trans hs.2 hs'.2⟩ (ih hrest)

theorem Advances.replace (before after : List Slot) (s s' : Slot) (hmodule : s'.module = s.module)
    (hstage : s.stage ≤ s'.stage) : Advances (before ++ s :: after) (before ++ s' :: after) := by
  induction before with
  | nil => exact .cons ⟨hmodule, hstage⟩ (refl after)
  | cons t rest ih => exact .cons ⟨rfl, Nat.le_refl _⟩ ih

theorem Advances.set {slots : List Slot} {i : Nat} {s s' : Slot} (hs : slots[i]? = some s)
    (hmodule : s'.module = s.module) (hstage : s.stage ≤ s'.stage) :
    Advances slots (slots.set i s') := by
  induction slots generalizing i with
  | nil => cases hs
  | cons t rest ih =>
    cases i with
    | zero =>
      obtain rfl := Option.some.inj hs
      exact .cons ⟨hmodule, hstage⟩ (refl rest)
    | succ i => exact .cons ⟨rfl, Nat.le_refl _⟩ (ih hs)

/-- Slots that were stored one after another, each time further on, from some slots to others. -/
inductive Path : List Slot → List (List Slot) → List Slot → Prop where
  | stay (a : List Slot) : Path a [] a
  | step {a b c : List Slot} {stored : List (List Slot)} :
      Advances a b → Path b stored c → Path a (b :: stored) c

theorem Path.append {a b c : List Slot} {stored stored' : List (List Slot)} (h : Path a stored b)
    (h' : Path b stored' c) : Path a (stored ++ stored') c := by
  induction h with
  | stay a => exact h'
  | step hab _ ih => exact .step hab (ih h')

theorem Path.advances {a b : List Slot} {stored : List (List Slot)} (h : Path a stored b) :
    ∀ x ∈ stored, Advances a x := by
  induction h with
  | stay a => simp
  | step hab _ ih =>
    intro x hx
    rcases List.mem_cons.1 hx with rfl | hx
    · exact hab
    · exact hab.trans (ih x hx)

/-- What was stored later is further on than what was stored before. -/
theorem Path.pairwise {a b : List Slot} {stored : List (List Slot)} (h : Path a stored b) :
    (a :: stored).Pairwise Advances := by
  induction h with
  | stay a => simp
  | step hab hpath ih => exact List.pairwise_cons.2 ⟨(Path.step hab hpath).advances, ih⟩

theorem Path.getLast? {a b : List Slot} {stored : List (List Slot)} (h : Path a stored b) :
    (a :: stored).getLast? = some b := by
  induction h with
  | stay a => rfl
  | step _ _ ih => rw [List.getLast?_cons_cons, ih]

/-! ### Courses are paths -/

section

variable {cast : Cast} {p : Phase} {passed rest slots : List Slot} {faults : List Fault}
  {ds : List Deed} {P : Progress} {e : Ensemble}

theorem AssertionCourse.path (h : AssertionCourse cast passed rest ds P)
    (hrest : ∀ s ∈ rest, s.stage ≤ .after .assertion) :
    Path (passed ++ rest) (storedIn ds) P.slots := by
  induction h with
  | done passed =>
    rw [List.append_nil]
    exact .stay passed
  | failed passed rest s f => exact .stay _
  | @held passed rest s ds P _ ih =>
    have hpath := ih fun t ht => hrest t (List.mem_cons_of_mem s ht)
    rw [List.append_assoc, List.singleton_append] at hpath
    exact .step (Advances.replace passed rest s (s.reached .assertion) rfl
      (hrest s List.mem_cons_self)) hpath

theorem PhaseCourse.path (h : PhaseCourse cast p passed faults rest ds P)
    (hrest : ∀ s ∈ rest, s.stage ≤ .after p) : Path (passed ++ rest) (storedIn ds) P.slots := by
  induction h with
  | done passed faults =>
    rw [List.append_nil]
    exact .stay passed
  | @absent passed rest faults s ds P _ _ ih =>
    have hpath := ih fun t ht => hrest t (List.mem_cons_of_mem s ht)
    rwa [List.append_assoc, List.singleton_append] at hpath
  | @ran passed rest faults s ds P _ _ ih =>
    have hpath := ih fun t ht => hrest t (List.mem_cons_of_mem s ht)
    rw [List.append_assoc, List.singleton_append] at hpath
    exact .step (Advances.replace passed rest s (s.reached p) rfl
      (hrest s List.mem_cons_self)) hpath
  | aborted passed rest faults f _ _ _ => exact .stay _
  | @leftOut passed rest faults s ds P f _ _ _ _ ih =>
    have hpath := ih fun t ht => hrest t (List.mem_cons_of_mem s ht)
    rw [List.append_assoc, List.singleton_append] at hpath
    exact .step (Advances.replace passed rest s s.leftOut rfl (Nat.le_refl _)) hpath
  | @noted passed rest faults s ds P f _ _ _ ih =>
    have hpath := ih fun t ht => hrest t (List.mem_cons_of_mem s ht)
    rw [List.append_assoc, List.singleton_append] at hpath
    exact .step (Advances.replace passed rest s (s.reached p) rfl
      (hrest s List.mem_cons_self)) hpath

theorem forall_mem_replace {Q : Slot → Prop} {s t : Slot} (ht : Q t)
    (h : ∀ s' ∈ passed ++ s :: rest, Q s') : ∀ s' ∈ passed ++ [t] ++ rest, Q s' := by
  intro s' hs'
  rw [List.append_assoc, List.singleton_append] at hs'
  rcases List.mem_append.1 hs' with hs' | hs'
  · exact h s' (List.mem_append_left _ hs')
  rcases List.mem_cons.1 hs' with rfl | hs'
  · exact ht
  · exact h s' (List.mem_append_right _ (List.mem_cons_of_mem s hs'))

/-- No slot is beyond a phase that all of them have been through. -/
theorem PhaseCourse.stage_le (h : PhaseCourse cast p passed faults rest ds P)
    (hall : ∀ s ∈ passed ++ rest, s.stage ≤ .after p) : ∀ s ∈ P.slots, s.stage ≤ .after p := by
  induction h with
  | done passed faults => simpa using hall
  | absent _ _ ih => exact ih (forall_mem_replace (hall _ (by simp)) hall)
  | ran _ _ ih => exact ih (forall_mem_replace (Nat.le_refl _) hall)
  | aborted passed rest faults f _ _ _ => exact hall
  | @leftOut passed rest faults s ds P f _ _ _ _ ih =>
    have hs : s.leftOut.stage ≤ .after p := hall s (by simp)
    exact ih (forall_mem_replace hs hall)
  | noted f _ _ _ ih => exact ih (forall_mem_replace (Nat.le_refl _) hall)

theorem SequenceCourse.path {ps : List Phase} (h : SequenceCourse cast slots faults ps ds P)
    (hps : ps.Pairwise fun p q => p.rank ≤ q.rank)
    (hslots : ∀ p ∈ ps, ∀ s ∈ slots, s.stage ≤ .after p) : Path slots (storedIn ds) P.slots := by
  induction h with
  | done slots faults => exact .stay slots
  | aborted hphase _ => exact hphase.path (hslots _ List.mem_cons_self)
  | @next slots faults p rest ds ds' P P' hphase _ _ ih =>
    have hpath := hphase.path (hslots p List.mem_cons_self)
    have hreached := hphase.stage_le (hslots p List.mem_cons_self)
    obtain ⟨hp, hrest⟩ := List.pairwise_cons.1 hps
    rw [storedIn_append]
    refine hpath.append (ih hrest fun q hq s hs => ?_)
    refine Nat.le_trans (hreached s hs) ?_
    rw [Stage.rank_after, Stage.rank_after]
    exact Nat.add_le_add_right (hp q hq) 1

theorem PreparationCourse.storedIn {ls : List ListenerId} (h : PreparationCourse ls ds) :
    storedIn ds = [] := by
  induction h with
  | done => rfl
  | prepared l o _ ih => exact ih

theorem AssertionCourse.stage_le (h : AssertionCourse cast passed rest ds P)
    (hall : ∀ s ∈ passed ++ rest, s.stage ≤ .after .assertion) :
    ∀ s ∈ P.slots, s.stage ≤ .after .assertion := by
  induction h with
  | done passed => simpa using hall
  | failed passed rest s f => exact hall
  | held _ ih => exact ih (forall_mem_replace (Nat.le_refl _) hall)

/-- The slots that a launch stores move forward. -/
theorem LaunchCourse.path {r : Except LaunchFailure LaunchSummary × Ensemble}
    (huntouched : e.Untouched) (h : LaunchCourse cast e ds r) :
    Path e.slots (storedIn ds) r.2.slots := by
  have hfirst : ∀ s ∈ [] ++ e.slots, s.stage ≤ .after .assertion := by
    intro s hs
    rw [(huntouched.slots s hs).1]
    decide
  have hassertions : ∀ {ds : List Deed} {P : Progress}, AssertionCourse cast [] e.slots ds P →
      Path e.slots (storedIn (.stored e.slots :: ds)) P.slots :=
    fun hassert => .step (Advances.refl _) (hassert.path hfirst)
  have hstartup : ∀ {ds ds' ds'' : List Deed} {P Q : Progress},
      AssertionCourse cast [] e.slots ds P → PreparationCourse e.listeners ds' →
      SequenceCourse cast P.slots [] Phase.startup ds'' Q →
      Path e.slots (storedIn (.stored e.slots :: ds ++ ds' ++ ds'')) Q.slots := by
    intro ds ds' ds'' P Q hassert hprepare hphases
    rw [storedIn_append, storedIn_append, hprepare.storedIn, List.append_nil]
    refine (hassertions hassert).append (hphases.path (by decide) fun p hp s hs => ?_)
    refine Nat.le_trans (hassert.stage_le hfirst s hs) ?_
    rw [Stage.rank_after, Stage.rank_after]
    exact Nat.add_le_add_right (Nat.zero_le _) 1
  cases h with
  | repeated _ => exact .stay _
  | asserted _ hassert _ => exact hassertions hassert
  | missing _ hassert _ _ => exact hassertions hassert
  | aborted _ hassert _ _ hprepare hphases _ => exact hstartup hassert hprepare hphases
  | completed _ hassert _ _ hprepare hphases _ => exact hstartup hassert hprepare hphases

/-- The slots that a shutdown stores move forward. -/
theorem StoppingCourse.path {positions : List Nat} {c c' : Closing}
    (h : StoppingCourse cast positions c ds c') : Path c.slots (storedIn ds) c'.slots := by
  induction h with
  | done c => exact .stay _
  | nobody _ _ ih => exact ih
  | idle _ _ _ ih => exact ih
  | @stopped i rest c c' ds s o hslot _ _ ih =>
    exact .step (Advances.set hslot rfl (Stage.le_shutdown s.stage)) ih

end

/-! ### Slots that have begun -/

theorem Stage.initialized_le_after {p : Phase} (h : p ≠ .assertion) : .initialized ≤ after p := by
  cases p <;> first | exact absurd rfl h | decide

/-- A slot has begun if and only if its module's `init` hook was called and held, and it has not been
shut down. -/
structure Slot.Accounted (calls : List (Callee × Outcome)) (s : Slot) : Prop where
  begun : .initialized ≤ s.stage ↔ (s.hook .init, .ok ()) ∈ calls
  not_shutdown : s.stage ≠ .shutdown

section

variable {cast : Cast} {calls : List (Callee × Outcome)} {s t : Slot} {p : Phase}

theorem Slot.Accounted.isDue (h : s.Accounted calls) :
    s.isDue = true ↔ (s.hook .init, .ok ()) ∈ calls := by
  rw [Slot.isDue, Bool.and_eq_true, decide_eq_true_eq, decide_eq_true_eq, h.begun]
  exact ⟨fun hdue => hdue.1, fun hmem => ⟨hmem, h.not_shutdown⟩⟩

/-- A call of another module changes nothing. -/
theorem Slot.Accounted.other (h : t.Accounted calls) (hother : t.module ≠ s.module) (o : Outcome) :
    t.Accounted (calls ++ [(s.hook p, o)]) := by
  refine ⟨?_, h.not_shutdown⟩
  rw [h.begun, List.mem_append, List.mem_singleton]
  refine ⟨Or.inl, ?_⟩
  intro hcases
  rcases hcases with hmem | hcall
  · exact hmem
  · exact absurd (Callee.hook.inj (Prod.mk.inj hcall).1).1 hother

/-- A call that fails changes nothing. -/
theorem Slot.Accounted.failed (h : s.Accounted calls) (f : HookFailure) :
    s.Accounted (calls ++ [(s.hook p, .error f)]) := by
  refine ⟨?_, h.not_shutdown⟩
  rw [h.begun, List.mem_append, List.mem_singleton]
  refine ⟨Or.inl, ?_⟩
  intro hcases
  rcases hcases with hmem | hcall
  · exact hmem
  · cases (Prod.mk.inj hcall).2

/-- A slot reaches a phase either by beginning with it or after having begun. -/
theorem Slot.Accounted.reached (h : s.Accounted calls) (hbegun : p = .init ∨ .initialized ≤ s.stage)
    (hfirst : p ≠ .assertion) (hlast : p ≠ .shutdown) {o : Outcome}
    (ho : p = .init → o = .ok ()) : (s.reached p).Accounted (calls ++ [(s.hook p, o)]) := by
  constructor
  · refine ⟨fun _ => ?_, fun _ => Stage.initialized_le_after hfirst⟩
    rw [List.mem_append, List.mem_singleton]
    rcases hbegun with rfl | hbegun
    · exact Or.inr (by rw [ho rfl]; rfl)
    · exact Or.inl (h.begun.1 hbegun)
  · cases p <;> first | exact absurd rfl hlast | exact fun h => by cases h

end

/-! ### Modules and kits stay -/

/-- A slot's module with its kit. -/
def Slot.owner (s : Slot) : ListenerId × Kit := (s.module, s.kit)

section

variable {cast : Cast} {p : Phase} {passed rest slots : List Slot} {faults : List Fault}
  {ds : List Deed} {P : Progress} {e : Ensemble}

theorem map_module_of_owner {slots slots' : List Slot}
    (h : slots'.map Slot.owner = slots.map Slot.owner) :
    slots'.map Slot.module = slots.map Slot.module := by
  have hfst := congrArg (List.map Prod.fst) h
  rwa [List.map_map, List.map_map] at hfst

theorem map_hook_of_owner {slots slots' : List Slot}
    (h : slots'.map Slot.owner = slots.map Slot.owner) (p : Phase) :
    slots'.map (fun s => s.hook p) = slots.map fun s => s.hook p := by
  have hhook := congrArg (List.map fun x : ListenerId × Kit => Callee.hook x.1 p x.2) h
  rwa [List.map_map, List.map_map] at hhook

theorem AssertionCourse.owners (h : AssertionCourse cast passed rest ds P) :
    P.slots.map Slot.owner = (passed ++ rest).map Slot.owner := by
  induction h with
  | done passed => rw [List.append_nil]
  | failed passed rest s f => rfl
  | held _ ih =>
    rw [ih, List.append_assoc]
    simp [Slot.owner]

theorem PhaseCourse.owners (h : PhaseCourse cast p passed faults rest ds P) :
    P.slots.map Slot.owner = (passed ++ rest).map Slot.owner := by
  induction h with
  | done passed faults => rw [List.append_nil]
  | absent _ _ ih => rw [ih, List.append_assoc, List.singleton_append]
  | ran _ _ ih =>
    rw [ih, List.append_assoc]
    simp [Slot.owner]
  | aborted passed rest faults f _ _ _ => rfl
  | leftOut f _ _ _ _ ih =>
    rw [ih, List.append_assoc]
    simp [Slot.owner]
  | noted f _ _ _ ih =>
    rw [ih, List.append_assoc]
    simp [Slot.owner]

theorem SequenceCourse.owners {ps : List Phase} (h : SequenceCourse cast slots faults ps ds P) :
    P.slots.map Slot.owner = slots.map Slot.owner := by
  induction h with
  | done slots faults => rfl
  | aborted hphase _ => exact hphase.owners
  | next hphase _ _ ih => rw [ih, hphase.owners, List.nil_append]

theorem LaunchCourse.owners {r : Except LaunchFailure LaunchSummary × Ensemble}
    (h : LaunchCourse cast e ds r) : r.2.slots.map Slot.owner = e.slots.map Slot.owner := by
  cases h with
  | repeated _ => rfl
  | asserted _ hassert _ => exact hassert.owners
  | missing _ hassert _ _ => exact hassert.owners
  | aborted _ hassert _ _ _ hphases _ => exact hphases.owners.trans hassert.owners
  | completed _ hassert _ _ _ hphases _ => exact hphases.owners.trans hassert.owners

end

/-! ### Whom a launch may call -/

/-- All calls that a launch may make, in order. -/
def Ensemble.launchCalls (e : Ensemble) : List Callee :=
  (e.slots.map fun s => s.hook .assertion) ++ e.listeners.map .prepare ++
    Phase.startup.flatMap fun p => e.slots.map fun s => s.hook p

section

variable {cast : Cast} {p : Phase} {passed rest slots : List Slot} {faults : List Fault}
  {ds : List Deed} {P : Progress} {e : Ensemble}

theorem AssertionCourse.callees_sublist (h : AssertionCourse cast passed rest ds P) :
    (calleesOf ds).Sublist (rest.map fun s => s.hook .assertion) := by
  induction h with
  | done passed => exact .slnil
  | failed passed rest s f => exact (List.nil_sublist _).cons_cons _
  | held _ ih => exact ih.cons_cons _

theorem PhaseCourse.callees_sublist (h : PhaseCourse cast p passed faults rest ds P) :
    (calleesOf ds).Sublist (rest.map fun s => s.hook p) := by
  induction h with
  | done passed faults => exact .slnil
  | absent _ _ ih => exact ih.cons _
  | ran _ _ ih => exact ih.cons_cons _
  | aborted passed rest faults f _ _ _ => exact (List.nil_sublist _).cons_cons _
  | leftOut f _ _ _ _ ih => exact ih.cons_cons _
  | noted f _ _ _ ih => exact ih.cons_cons _

theorem SequenceCourse.callees_sublist {ps : List Phase}
    (h : SequenceCourse cast slots faults ps ds P) :
    (calleesOf ds).Sublist (ps.flatMap fun p => slots.map fun s => s.hook p) := by
  induction h with
  | done slots faults => exact .slnil
  | aborted hphase _ =>
    rw [List.flatMap_cons]
    exact hphase.callees_sublist.trans (List.sublist_append_left _ _)
  | @next slots faults p rest ds ds' P P' hphase _ _ ih =>
    have hhooks : ∀ q : Phase, (P.slots.map fun s => s.hook q) = slots.map fun s => s.hook q :=
      map_hook_of_owner hphase.owners
    simp only [hhooks] at ih
    rw [calleesOf_append, List.flatMap_cons]
    exact hphase.callees_sublist.append ih

theorem PreparationCourse.callees {ls : List ListenerId} (h : PreparationCourse ls ds) :
    calleesOf ds = ls.map .prepare := by
  induction h with
  | done => rfl
  | prepared l o _ ih => rw [calleesOf_called, ih, List.map_cons]

/-- A launch makes no calls but these, and each at most once and in this order. -/
theorem LaunchCourse.callees_sublist {r : Except LaunchFailure LaunchSummary × Ensemble}
    (h : LaunchCourse cast e ds r) : (calleesOf ds).Sublist e.launchCalls := by
  have hassertions : ∀ {ds : List Deed} {P : Progress}, AssertionCourse cast [] e.slots ds P →
      (calleesOf (.stored e.slots :: ds)).Sublist e.launchCalls :=
    fun hassert => (hassert.callees_sublist.trans (List.sublist_append_left _ _)).trans
      (List.sublist_append_left _ _)
  have hstartup : ∀ {ds ds' ds'' : List Deed} {P Q : Progress},
      AssertionCourse cast [] e.slots ds P → PreparationCourse e.listeners ds' →
      SequenceCourse cast P.slots [] Phase.startup ds'' Q →
      (calleesOf (.stored e.slots :: ds ++ ds' ++ ds'')).Sublist e.launchCalls := by
    intro ds ds' ds'' P Q hassert hprepare hphases
    have hcalls := hphases.callees_sublist
    have hhooks : ∀ q : Phase, (P.slots.map fun s => s.hook q) = e.slots.map fun s => s.hook q :=
      map_hook_of_owner hassert.owners
    simp only [hhooks] at hcalls
    rw [calleesOf_append, calleesOf_append, calleesOf_stored, hprepare.callees]
    exact (hassert.callees_sublist.append (List.Sublist.refl _)).append hcalls
  cases h with
  | repeated _ => exact List.nil_sublist _
  | asserted _ hassert _ => exact hassertions hassert
  | missing _ hassert _ _ => exact hassertions hassert
  | aborted _ hassert _ _ hprepare hphases _ => exact hstartup hassert hprepare hphases
  | completed _ hassert _ _ hprepare hphases _ => exact hstartup hassert hprepare hphases

end

/-! ### Launches account for the slots that have begun -/

/-- A slot is accounted for, and has begun if it is still active. -/
def Slot.Running (calls : List (Callee × Outcome)) (s : Slot) : Prop :=
  s.Accounted calls ∧ (s.active = true → .initialized ≤ s.stage)

/-- A slot may go through a phase: it has begun if it is still active, unless it begins just now. -/
def Slot.Ready (p : Phase) (calls : List (Callee × Outcome)) (s : Slot) : Prop :=
  s.Accounted calls ∧ (s.active = true → p = .init ∨ .initialized ≤ s.stage)

theorem ne_of_nodup_modules {passed rest : List Slot} {s t : Slot}
    (h : ((passed ++ s :: rest).map Slot.module).Nodup) (ht : t ∈ passed ∨ t ∈ rest) :
    t.module ≠ s.module := by
  have hperm : ((passed ++ s :: rest).map Slot.module).Perm
      ((s :: (passed ++ rest)).map Slot.module) :=
    List.perm_middle.map _
  have hnodup := hperm.nodup h
  rw [List.map_cons, List.nodup_cons] at hnodup
  intro heq
  exact hnodup.1 (heq ▸ List.mem_map_of_mem (List.mem_append.2 ht))

section

variable {cast : Cast} {p : Phase} {passed rest slots : List Slot} {faults : List Fault}
  {ds : List Deed} {P : Progress} {calls : List (Callee × Outcome)} {e : Ensemble}

/-- One slot has been called, and the phase goes on with the others. -/
theorem Slot.Running.step {s t : Slot} {o : Outcome}
    (hnodup : ((passed ++ s :: rest).map Slot.module).Nodup)
    (hpassed : ∀ s' ∈ passed, s'.Running calls) (hrest : ∀ s' ∈ s :: rest, s'.Ready p calls)
    (ht : t.Running (calls ++ [(s.hook p, o)])) :
    (∀ s' ∈ passed ++ [t], s'.Running (calls ++ [(s.hook p, o)])) ∧
      ∀ s' ∈ rest, s'.Ready p (calls ++ [(s.hook p, o)]) := by
  constructor
  · intro s' hs'
    rcases List.mem_append.1 hs' with hs' | hs'
    · obtain ⟨haccounted, hbegun⟩ := hpassed s' hs'
      exact ⟨haccounted.other (ne_of_nodup_modules hnodup (.inl hs')) o, hbegun⟩
    · rw [List.mem_singleton.1 hs']
      exact ht
  · intro s' hs'
    obtain ⟨haccounted, hbegun⟩ := hrest s' (List.mem_cons_of_mem s hs')
    exact ⟨haccounted.other (ne_of_nodup_modules hnodup (.inr hs')) o, hbegun⟩

theorem nodup_replace (s t : Slot) (hmodule : t.module = s.module)
    (h : ((passed ++ s :: rest).map Slot.module).Nodup) :
    ((passed ++ [t] ++ rest).map Slot.module).Nodup := by
  rw [List.append_assoc, List.singleton_append]
  rwa [List.map_append, List.map_cons, hmodule, ← List.map_cons, ← List.map_append]

theorem PhaseCourse.accounted (h : PhaseCourse cast p passed faults rest ds P)
    (hfirst : p ≠ .assertion) (hlast : p ≠ .shutdown)
    (hnodup : ((passed ++ rest).map Slot.module).Nodup)
    (hpassed : ∀ s ∈ passed, s.Running calls) (hrest : ∀ s ∈ rest, s.Ready p calls) :
    (∀ s ∈ P.slots, s.Accounted (calls ++ callsOf ds)) ∧
      (P.aborted = none → ∀ s ∈ P.slots, s.Running (calls ++ callsOf ds)) := by
  induction h generalizing calls with
  | done passed faults =>
    rw [callsOf_nil, List.append_nil]
    exact ⟨fun s hs => (hpassed s hs).1, fun _ => hpassed⟩
  | @absent passed rest faults s ds P hactive _ ih =>
    refine ih (nodup_replace s s rfl hnodup) ?_ fun t ht => hrest t (List.mem_cons_of_mem s ht)
    intro t ht
    rcases List.mem_append.1 ht with ht | ht
    · exact hpassed t ht
    · rw [List.mem_singleton.1 ht]
      exact ⟨(hrest s List.mem_cons_self).1, fun h => by simp [hactive] at h⟩
  | @ran passed rest faults s ds P hactive _ ih =>
    obtain ⟨haccounted, hbegun⟩ := hrest s List.mem_cons_self
    have hs : (s.reached p).Running (calls ++ [(s.hook p, .ok ())]) :=
      ⟨haccounted.reached (hbegun hactive) hfirst hlast fun _ => rfl,
        fun _ => Stage.initialized_le_after hfirst⟩
    obtain ⟨hpassed', hrest'⟩ := Slot.Running.step hnodup hpassed hrest hs
    have hend := ih (nodup_replace s (s.reached p) rfl hnodup) hpassed' hrest'
    rwa [List.append_assoc] at hend
  | @aborted passed rest faults s f hactive _ _ =>
    refine ⟨fun t ht => ?_, fun hnone => by cases hnone⟩
    rw [callsOf_called, callsOf_nil]
    rcases List.mem_append.1 ht with ht | ht
    · exact (hpassed t ht).1.other (ne_of_nodup_modules hnodup (.inl ht)) _
    rcases List.mem_cons.1 ht with rfl | ht
    · exact (hrest t List.mem_cons_self).1.failed f
    · exact (hrest t (List.mem_cons_of_mem s ht)).1.other
        (ne_of_nodup_modules hnodup (.inr ht)) _
  | @leftOut passed rest faults s ds P f _ _ _ _ ih =>
    have haccounted := (hrest s List.mem_cons_self).1.failed (p := p) f
    have hs : s.leftOut.Running (calls ++ [(s.hook p, .error f)]) :=
      ⟨⟨haccounted.begun, haccounted.not_shutdown⟩, fun h => by cases h⟩
    obtain ⟨hpassed', hrest'⟩ := Slot.Running.step hnodup hpassed hrest hs
    have hend := ih (nodup_replace s s.leftOut rfl hnodup) hpassed' hrest'
    rwa [List.append_assoc] at hend
  | @noted passed rest faults s ds P f hactive hphase _ ih =>
    obtain ⟨haccounted, hbegun⟩ := hrest s List.mem_cons_self
    have hs : (s.reached p).Running (calls ++ [(s.hook p, .error f)]) := by
      refine ⟨haccounted.reached (hbegun hactive) hfirst hlast ?_,
        fun _ => Stage.initialized_le_after hfirst⟩
      intro heq
      subst heq
      cases hphase
    obtain ⟨hpassed', hrest'⟩ := Slot.Running.step hnodup hpassed hrest hs
    have hend := ih (nodup_replace s (s.reached p) rfl hnodup) hpassed' hrest'
    rwa [List.append_assoc] at hend

theorem SequenceCourse.accounted {ps : List Phase} (h : SequenceCourse cast slots faults ps ds P)
    (hps : ∀ p ∈ ps, p ≠ .assertion ∧ p ≠ .shutdown) (hnodup : (slots.map Slot.module).Nodup)
    (hslots : ∀ s ∈ slots, s.Accounted calls ∧
      (s.active = true → ps.head? = some .init ∨ .initialized ≤ s.stage)) :
    ∀ s ∈ P.slots, s.Accounted (calls ++ callsOf ds) := by
  induction h generalizing calls with
  | done slots faults =>
    rw [callsOf_nil, List.append_nil]
    exact fun s hs => (hslots s hs).1
  | @aborted slots faults p rest ds P hphase _ =>
    obtain ⟨hfirst, hlast⟩ := hps p List.mem_cons_self
    refine (hphase.accounted hfirst hlast hnodup (by simp) fun s hs => ?_).1
    obtain ⟨haccounted, hbegun⟩ := hslots s hs
    exact ⟨haccounted, fun hactive => (hbegun hactive).imp_left Option.some.inj⟩
  | @next slots faults p rest ds ds' P P' hphase hnone _ ih =>
    obtain ⟨hfirst, hlast⟩ := hps p List.mem_cons_self
    have hrunning := (hphase.accounted hfirst hlast hnodup (by simp) fun s hs => by
      obtain ⟨haccounted, hbegun⟩ := hslots s hs
      exact ⟨haccounted, fun hactive => (hbegun hactive).imp_left Option.some.inj⟩).2 hnone
    have hnodup' : (P.slots.map Slot.module).Nodup := by
      rw [map_module_of_owner hphase.owners]
      exact hnodup
    rw [callsOf_append, ← List.append_assoc]
    refine ih (fun q hq => hps q (List.mem_cons_of_mem p hq)) hnodup' fun s hs => ?_
    exact ⟨(hrunning s hs).1, fun hactive => .inr ((hrunning s hs).2 hactive)⟩

/-- A slot that has only been asserted is accounted for by calls among which there is no `init`. -/
theorem Slot.accounted_of_asserted {s : Slot} (hstage : s.stage ≤ .asserted)
    (hcalls : ∀ c ∈ calls, ∀ m kit, c.1 ≠ .hook m .init kit) : s.Accounted calls := by
  refine ⟨⟨fun hbegun => ?_, fun hmem => absurd rfl (hcalls _ hmem s.module s.kit)⟩, ?_⟩
  · exact absurd (Nat.le_trans hbegun hstage) (by decide)
  · intro hshutdown
    rw [hshutdown] at hstage
    exact absurd hstage (by decide)

/-- After a launch the slots are accounted for by the calls it made. -/
theorem LaunchCourse.accounted {r : Except LaunchFailure LaunchSummary × Ensemble}
    (huntouched : e.Untouched) (hnodup : e.modules.Nodup) (h : LaunchCourse cast e ds r) :
    ∀ s ∈ r.2.slots, s.Accounted (callsOf ds) := by
  have hfirst : ∀ s ∈ [] ++ e.slots, s.stage ≤ .after .assertion := by
    intro s hs
    rw [(huntouched.slots s hs).1]
    decide
  have hquiet : ∀ {ds ds' : List Deed} {P : Progress}, AssertionCourse cast [] e.slots ds P →
      (ds' = [] ∨ PreparationCourse e.listeners ds') →
      ∀ c ∈ callsOf (ds ++ ds'), ∀ m kit, c.1 ≠ .hook m .init kit := by
    intro ds ds' P hassert hprepare c hc m kit heq
    have hmem : c.1 ∈ calleesOf (ds ++ ds') := List.mem_map_of_mem hc
    rw [calleesOf_append, heq] at hmem
    rcases List.mem_append.1 hmem with hmem | hmem
    · obtain ⟨s, _, hs⟩ := List.mem_map.1 (hassert.callees_sublist.mem hmem)
      cases hs
    · rcases hprepare with rfl | hprepare
      · cases hmem
      · rw [hprepare.callees] at hmem
        obtain ⟨l, _, hl⟩ := List.mem_map.1 hmem
        cases hl
  have hassertions : ∀ {ds : List Deed} {P : Progress}, AssertionCourse cast [] e.slots ds P →
      ∀ s ∈ P.slots, s.Accounted (callsOf (.stored e.slots :: ds)) := by
    intro ds P hassert s hs
    refine Slot.accounted_of_asserted (hassert.stage_le hfirst s hs) ?_
    have hds := hquiet hassert (.inl rfl)
    rwa [List.append_nil] at hds
  have hstartup : ∀ {ds ds' ds'' : List Deed} {P Q : Progress},
      AssertionCourse cast [] e.slots ds P → PreparationCourse e.listeners ds' →
      SequenceCourse cast P.slots [] Phase.startup ds'' Q →
      ∀ s ∈ Q.slots, s.Accounted (callsOf (.stored e.slots :: ds ++ ds' ++ ds'')) := by
    intro ds ds' ds'' P Q hassert hprepare hphases
    have hmodules : (P.slots.map Slot.module).Nodup := by
      rw [map_module_of_owner hassert.owners]
      exact hnodup
    have hcalls := hquiet hassert (.inr hprepare)
    rw [List.cons_append, List.cons_append, callsOf_stored, callsOf_append]
    exact hphases.accounted (by decide) hmodules fun s hs =>
      ⟨Slot.accounted_of_asserted (hassert.stage_le hfirst s hs) hcalls, fun _ => .inl rfl⟩
  cases h with
  | repeated hlaunched => simp [huntouched.launched] at hlaunched
  | asserted _ hassert _ => exact hassertions hassert
  | missing _ hassert _ _ => exact hassertions hassert
  | aborted _ hassert _ _ hprepare hphases _ => exact hstartup hassert hprepare hphases
  | completed _ hassert _ _ hprepare hphases _ => exact hstartup hassert hprepare hphases

end

end Orchestra
