import Mathlib.Data.List.Nodup
import Orchestra.Proofs.Stages

/-!
# The life of a module

Whatever is asked of an ensemble, and in whatever order, the life of each of its modules goes one way.

* `StoppingCourse.callees_eq` — a shutdown calls those that are due, in the closing order;
* `phasesOf` — the phases in which a module's hooks were called;
* `IsRunning` — the module's `init` hook has held, and no shutdown has come after it;
* `Biography.callees_sublist` — all calls that an ensemble may ever make, in order;
* `Biography.phases_sublist` — the hooks of a module are called in the order of the phases;
* `Chronicle.hasStopped_iff` — a shutdown hook is called if and only if the module is running;
* `modules_move_forward` — all of this, and that stages move forward, for every story.
-/

namespace Orchestra

variable {A : Application}

/-! ### Whom a shutdown calls -/

/-- The slots in the order in which they are shut down. -/
def Ensemble.closingSlots (e : Ensemble) : List Slot :=
  match e.config.closingOrder with
  | .startup => e.slots
  | .reverse => e.slots.reverse

theorem Ensemble.filterMap_shutdownPositions (e : Ensemble) :
    e.shutdownPositions.filterMap (fun i => e.slots[i]?) = e.closingSlots := by
  unfold shutdownPositions closingSlots
  cases e.config.closingOrder with
  | startup => exact filterMap_getElem?_range e.slots
  | reverse => exact (List.filterMap_reverse ..).trans (by rw [filterMap_getElem?_range])

theorem Ensemble.nodup_shutdownPositions (e : Ensemble) : e.shutdownPositions.Nodup := by
  unfold shutdownPositions
  split
  · exact List.nodup_range
  · exact (List.reverse_perm _).symm.nodup List.nodup_range

theorem Ensemble.closingSlots_perm (e : Ensemble) : e.closingSlots.Perm e.slots := by
  unfold closingSlots
  split
  · exact .refl _
  · exact List.reverse_perm _

section

variable {cast : Cast} {positions : List Nat} {c c' : Closing} {ds : List Deed}

theorem StoppingCourse.callees (h : StoppingCourse cast positions c ds c')
    (hnodup : positions.Nodup) : calleesOf ds =
      ((positions.filterMap fun i => c.slots[i]?).filter Slot.isDue).map
        fun s => s.hook .shutdown := by
  induction h with
  | done c => rfl
  | nobody hnone _ ih =>
    rw [ih (List.nodup_cons.1 hnodup).2, List.filterMap_cons_none hnone]
  | idle hslot hidle _ ih =>
    rw [ih (List.nodup_cons.1 hnodup).2, List.filterMap_cons_some hslot, List.filter_cons, hidle]
    rfl
  | @stopped i rest c c' ds s o hslot hdue _ ih =>
    obtain ⟨hi, hrest⟩ := List.nodup_cons.1 hnodup
    have hothers : (rest.filterMap fun j => (c.slots.set i (s.reached .shutdown))[j]?)
        = rest.filterMap fun j => c.slots[j]? := by
      refine List.filterMap_congr fun j hj => ?_
      rw [List.getElem?_set_ne]
      intro heq
      subst heq
      exact hi hj
    rw [calleesOf_called, calleesOf_stored, ih hrest, hothers, List.filterMap_cons_some hslot,
      List.filter_cons, hdue]
    rfl

/-- A shutdown calls the modules that are due, in the closing order. -/
theorem StoppingCourse.callees_eq {e : Ensemble}
    (h : StoppingCourse cast e.shutdownPositions ⟨e.slots, 0, []⟩ ds c') :
    calleesOf ds = (e.closingSlots.filter Slot.isDue).map fun s => s.hook .shutdown := by
  rw [h.callees e.nodup_shutdownPositions, e.filterMap_shutdownPositions]

end

/-! ### The phases of a module -/

/-- The phase of a call, if it is a hook of the module. -/
def Callee.phaseOf? (m : ListenerId) : Callee → Option Phase
  | hook m' p _ => if m' = m then some p else none
  | _ => none

/-- The phases in which hooks of a module were called, in order. -/
def phasesOf (m : ListenerId) (cs : List Callee) : List Phase := cs.filterMap (Callee.phaseOf? m)

section

variable {m : ListenerId} {slots : List Slot}

theorem phasesOf_hooks_of_not_mem (h : m ∉ slots.map Slot.module) (p : Phase) :
    phasesOf m (slots.map fun s => s.hook p) = [] := by
  refine List.filterMap_eq_nil_iff.2 fun c hc => ?_
  obtain ⟨s, hs, rfl⟩ := List.mem_map.1 hc
  have hne : s.module ≠ m := fun heq => h (heq ▸ List.mem_map_of_mem hs)
  exact if_neg hne

theorem phasesOf_hooks (h : (slots.map Slot.module).Nodup) (p : Phase) :
    (phasesOf m (slots.map fun s => s.hook p)).Sublist [p] := by
  induction slots with
  | nil => exact List.nil_sublist _
  | cons s rest ih =>
    obtain ⟨hs, hrest⟩ := List.nodup_cons.1 h
    by_cases heq : s.module = m
    · have hnone := phasesOf_hooks_of_not_mem (heq ▸ hs) p
      have hsome : Callee.phaseOf? m (s.hook p) = some p := if_pos heq
      rw [List.map_cons, phasesOf, List.filterMap_cons_some hsome]
      exact List.Sublist.cons_cons p (List.sublist_nil.2 hnone)
    · have hskip : Callee.phaseOf? m (s.hook p) = none := if_neg heq
      rw [List.map_cons, phasesOf, List.filterMap_cons_none hskip]
      exact ih hrest

theorem phasesOf_flatMap (h : (slots.map Slot.module).Nodup) (ps : List Phase) :
    (phasesOf m (ps.flatMap fun p => slots.map fun s => s.hook p)).Sublist ps := by
  induction ps with
  | nil => exact .slnil
  | cons p rest ih =>
    rw [List.flatMap_cons, phasesOf, List.filterMap_append]
    exact (phasesOf_hooks h p).append ih

theorem phasesOf_launchCalls {e : Ensemble} (h : e.modules.Nodup) :
    (phasesOf m e.launchCalls).Sublist (.assertion :: Phase.startup) := by
  have hprepare : phasesOf m (e.listeners.map .prepare) = [] := by
    refine List.filterMap_eq_nil_iff.2 fun c hc => ?_
    obtain ⟨l, _, rfl⟩ := List.mem_map.1 hc
    rfl
  rw [Ensemble.launchCalls, phasesOf, List.filterMap_append, List.filterMap_append]
  rw [phasesOf] at hprepare
  rw [hprepare, List.append_nil]
  exact (phasesOf_hooks h .assertion).append (phasesOf_flatMap h Phase.startup)

end

/-! ### Running modules -/

/-- The module's `init` hook was called and held. -/
def HasBegun (m : ListenerId) (tr : List (Exchange A)) : Prop :=
  ∃ kit, (.hook m .init kit, .ok ()) ∈ callsOf (deeds tr)

/-- The module's shutdown hook was called. -/
def HasStopped (m : ListenerId) (tr : List (Exchange A)) : Prop :=
  ∃ kit, .hook m .shutdown kit ∈ calleesOf (deeds tr)

/-- The module's `init` hook has held in some act, and no shutdown has come after that. -/
def IsRunning (m : ListenerId) (C : List (Act × List (Exchange A))) : Prop :=
  ∃ before x after, C = before ++ x :: after ∧ HasBegun m x.2 ∧ IsOpen after

section

variable {m : ListenerId} {C D : List (Act × List (Exchange A))} {a : Act} {tr : List (Exchange A)}

theorem not_hasBegun_of_deeds_eq_nil (h : deeds tr = []) : ¬ HasBegun m tr := by
  intro hyp
  obtain ⟨kit, hmem⟩ := hyp
  rw [h] at hmem
  cases hmem

theorem not_hasStopped_of_deeds_eq_nil (h : deeds tr = []) : ¬ HasStopped m tr := by
  intro hyp
  obtain ⟨kit, hmem⟩ := hyp
  rw [h] at hmem
  cases hmem

/-- What one more act means for running. -/
theorem isRunning_snoc :
    IsRunning m (C ++ [(a, tr)]) ↔ HasBegun m tr ∨ (IsRunning m C ∧ a ≠ .shutdown) := by
  constructor
  · intro hyp
    obtain ⟨before, x, after, hC, hbegun, hopen⟩ := hyp
    rcases List.eq_nil_or_concat after with rfl | ⟨after, y, rfl⟩
    · obtain ⟨_, hx⟩ := List.append_inj' hC rfl
      obtain rfl := List.singleton_inj.1 hx
      exact .inl hbegun
    · rw [List.concat_eq_append, ← List.cons_append, ← List.append_assoc] at hC
      obtain ⟨rfl, hy⟩ := List.append_inj' hC rfl
      obtain rfl := List.singleton_inj.1 hy
      rw [List.concat_eq_append] at hopen
      exact .inr ⟨⟨before, x, after, rfl, hbegun, fun z hz => hopen z (List.mem_append_left _ hz)⟩,
        hopen (a, tr) (by simp)⟩
  · intro hcases
    rcases hcases with hbegun | ⟨⟨before, x, after, rfl, hbegun, hopen⟩, ha⟩
    · exact ⟨C, (a, tr), [], rfl, hbegun, by simp [IsOpen]⟩
    · exact ⟨before, x, after ++ [(a, tr)], by simp, hbegun, hopen.snoc ha⟩

theorem not_isRunning_of_isUneventful (h : IsUneventful C) : ¬ IsRunning m C := by
  intro hyp
  obtain ⟨before, x, after, rfl, hbegun, _⟩ := hyp
  exact not_hasBegun_of_deeds_eq_nil (h x (by simp)) hbegun

theorem isRunning_of_append (hD : IsUneventful D) (h : IsRunning m (C ++ D)) : IsRunning m C := by
  induction D generalizing C with
  | nil => rwa [List.append_nil] at h
  | cons x rest ih =>
    rw [← List.singleton_append, ← List.append_assoc] at h
    have hC := ih (fun y hy => hD y (List.mem_cons_of_mem x hy)) h
    rcases isRunning_snoc.1 hC with hbegun | ⟨hrunning, _⟩
    · exact absurd hbegun (not_hasBegun_of_deeds_eq_nil (hD x List.mem_cons_self))
    · exact hrunning

theorem IsRunning.append (h : IsRunning m C) (hD : IsOpen D) : IsRunning m (C ++ D) := by
  obtain ⟨before, x, after, rfl, hbegun, hopen⟩ := h
  refine ⟨before, x, after ++ D, by simp, hbegun, fun y hy => ?_⟩
  rcases List.mem_append.1 hy with hy | hy
  · exact hopen y hy
  · exact hD y hy

end

/-! ### Lives -/

theorem History.split {ρ : Type} {Done : ρ → Ensemble → List (Exchange A) → Ensemble → Prop}
    {e₀ e : Ensemble} {T b c : List (ρ × List (Exchange A))} {r : ρ} {tr : List (Exchange A)}
    (h : History Done e₀ T e) (hT : T = b ++ (r, tr) :: c) :
    ∃ e₁ e₂, History Done e₀ b e₁ ∧ Done r e₁ tr e₂ := by
  induction h generalizing c with
  | start => simp at hT
  | @next T e e' r' tr' hhistory hdone ih =>
    rcases List.eq_nil_or_concat c with rfl | ⟨c, y, rfl⟩
    · obtain ⟨rfl, hx⟩ := List.append_inj' hT rfl
      obtain ⟨rfl, rfl⟩ := Prod.mk.inj (List.singleton_inj.1 hx)
      exact ⟨e, e', hhistory, hdone⟩
    · rw [List.concat_eq_append, ← List.cons_append, ← List.append_assoc] at hT
      obtain ⟨hT, _⟩ := List.append_inj' hT rfl
      exact ih hT

section

variable {cast : Cast} {name : String} {e₀ e e' : Ensemble} {ds : List Deed}
  {C : List (Act × List (Exchange A))} {tr : List (Exchange A)} {m : ListenerId}

theorem Ensemble.of_hook_mem_launchCalls {p : Phase} {kit : Kit}
    (h : .hook m p kit ∈ e.launchCalls) : p ∈ Phase.assertion :: Phase.startup ∧
      .hook m p kit ∈ e.slots.map fun s => s.hook p := by
  rcases List.mem_append.1 h with h | h
  · rcases List.mem_append.1 h with h | h
    · obtain ⟨s, hs, heq⟩ := List.mem_map.1 h
      obtain ⟨rfl, rfl, rfl⟩ := Callee.hook.inj heq
      exact ⟨List.mem_cons_self, h⟩
    · obtain ⟨l, _, hl⟩ := List.mem_map.1 h
      cases hl
  · obtain ⟨q, hq, h⟩ := List.mem_flatMap.1 h
    obtain ⟨s, hs, heq⟩ := List.mem_map.1 h
    obtain ⟨rfl, rfl, rfl⟩ := Callee.hook.inj heq
    exact ⟨List.mem_cons_of_mem _ hq, h⟩

/-- A launch calls no shutdown hook. -/
theorem LaunchCourse.not_hasStopped {r : Except LaunchFailure LaunchSummary × Ensemble}
    (h : LaunchCourse cast e (deeds tr) r) : ¬ HasStopped m tr := by
  intro hyp
  obtain ⟨kit, hmem⟩ := hyp
  have hphase := (Ensemble.of_hook_mem_launchCalls (h.callees_sublist.mem hmem)).1
  exact absurd hphase (by decide)

/-- A shutdown calls no `init` hook. -/
theorem StoppingCourse.not_hasBegun {c : Closing}
    (h : StoppingCourse cast e.shutdownPositions ⟨e.slots, 0, []⟩ (deeds tr) c) :
    ¬ HasBegun m tr := by
  intro hyp
  obtain ⟨kit, hmem⟩ := hyp
  have hcall : Callee.hook m .init kit ∈ calleesOf (deeds tr) := List.mem_map_of_mem hmem
  rw [h.callees_eq] at hcall
  obtain ⟨s, _, hs⟩ := List.mem_map.1 hcall
  cases hs

theorem deeds_exchanges_launched {C C' : List (Act × List (Exchange A))} (hC : IsUneventful C)
    (hC' : IsUneventful C') :
    deeds (exchanges (C ++ (Act.launch, tr) :: C')) = deeds tr := by
  rw [exchanges_append, deeds_append, deeds_exchanges_of_isUneventful hC, exchanges_cons,
    deeds_append, deeds_exchanges_of_isUneventful hC', List.nil_append, List.append_nil]

theorem deeds_exchanges_closed {C C' C'' : List (Act × List (Exchange A))}
    {tr' : List (Exchange A)} (hC : IsUneventful C) (hC' : IsUneventful C')
    (hC'' : IsUneventful C'') :
    deeds (exchanges (C ++ (Act.launch, tr) :: C' ++ (Act.shutdown, tr') :: C''))
      = deeds tr ++ deeds tr' := by
  rw [exchanges_append, deeds_append, deeds_exchanges_launched hC hC', exchanges_cons,
    deeds_append, deeds_exchanges_of_isUneventful hC'', List.append_nil]

/-- All calls of hooks and preparations that an ensemble may ever make, in order. -/
def Ensemble.lifeCalls (e : Ensemble) : List Callee :=
  e.launchCalls ++ e.closingSlots.map fun s => s.hook .shutdown

theorem LaunchCourse.closingHooks {r : Except LaunchFailure LaunchSummary × Ensemble}
    (h : LaunchCourse cast e ds r) : (r.2.closingSlots.map fun s => s.hook .shutdown)
      = e.closingSlots.map fun s => s.hook .shutdown := by
  have hconfig : r.2.config = e.config := by cases h <;> rfl
  have hhooks := map_hook_of_owner h.owners .shutdown
  unfold Ensemble.closingSlots
  rw [hconfig]
  cases e.config.closingOrder with
  | startup => exact hhooks
  | reverse =>
    show r.2.slots.reverse.map _ = e.slots.reverse.map _
    rw [List.map_reverse, hhooks, List.map_reverse]

/-- Whatever is asked of an ensemble, it makes no other calls, and each at most once and in this
order. -/
theorem Biography.callees_sublist (h : Biography cast e₀ C e) :
    (calleesOf (deeds (exchanges C))).Sublist e₀.lifeCalls := by
  cases h with
  | untouched hC =>
    rw [deeds_exchanges_of_isUneventful hC]
    exact List.nil_sublist _
  | launched hC hcourse hC' _ =>
    rw [deeds_exchanges_launched hC hC']
    exact hcourse.callees_sublist.trans (List.sublist_append_left _ _)
  | closed hC hcourse hC' _ hstopping hC'' =>
    rw [deeds_exchanges_closed hC hC' hC'', calleesOf_append, hstopping.callees_eq]
    refine hcourse.callees_sublist.append ?_
    rw [← hcourse.closingHooks]
    exact List.filter_sublist.map _

/-- The hooks of a module are called in the order of the phases, each at most once. -/
theorem Biography.phases_sublist (h : Biography cast e₀ C e) (hnodup : e₀.modules.Nodup) :
    (phasesOf m (calleesOf (deeds (exchanges C)))).Sublist Phase.all := by
  have hclosing : (e₀.closingSlots.map Slot.module).Nodup :=
    (e₀.closingSlots_perm.map _).symm.nodup hnodup
  refine (h.callees_sublist.filterMap _).trans ?_
  rw [Ensemble.lifeCalls, List.filterMap_append]
  exact (phasesOf_launchCalls hnodup).append (phasesOf_hooks hclosing .shutdown)

/-- The slots that are stored move forward. -/
theorem Biography.path (h : Biography cast e₀ C e) (huntouched : e₀.Untouched) :
    Path e₀.slots (storedIn (deeds (exchanges C))) e.slots := by
  cases h with
  | untouched hC =>
    rw [deeds_exchanges_of_isUneventful hC]
    exact .stay _
  | launched hC hcourse hC' _ =>
    rw [deeds_exchanges_launched hC hC']
    exact hcourse.path huntouched
  | @closed C C' C'' tr tr' r e c hC hcourse hC' _ hstopping hC'' =>
    rw [deeds_exchanges_closed hC hC' hC'', storedIn_append]
    exact (hcourse.path huntouched).append hstopping.path

/-- After a launch those are due whose `init` hook held. -/
theorem LaunchCourse.exists_isDue_iff {r : Except LaunchFailure LaunchSummary × Ensemble}
    (h : LaunchCourse cast e (deeds tr) r) (huntouched : e.Untouched) (hnodup : e.modules.Nodup) :
    (∃ s ∈ r.2.slots, s.module = m ∧ s.isDue = true) ↔ HasBegun m tr := by
  constructor
  · intro hyp
    obtain ⟨s, hs, rfl, hdue⟩ := hyp
    exact ⟨s.kit, (h.accounted huntouched hnodup s hs).isDue.1 hdue⟩
  · intro hyp
    obtain ⟨kit, hmem⟩ := hyp
    have hcall : Callee.hook m .init kit ∈ calleesOf (deeds tr) := List.mem_map_of_mem hmem
    have hslot := (Ensemble.of_hook_mem_launchCalls (h.callees_sublist.mem hcall)).2
    rw [← map_hook_of_owner h.owners] at hslot
    obtain ⟨s, hs, heq⟩ := List.mem_map.1 hslot
    obtain ⟨rfl, _, rfl⟩ := Callee.hook.inj heq
    exact ⟨s, hs, rfl, (h.accounted huntouched hnodup s hs).isDue.2 hmem⟩

/-- A shutdown calls the hooks of those that are due. -/
theorem StoppingCourse.hasStopped_iff {c : Closing}
    (h : StoppingCourse cast e.shutdownPositions ⟨e.slots, 0, []⟩ (deeds tr) c) :
    HasStopped m tr ↔ ∃ s ∈ e.slots, s.module = m ∧ s.isDue = true := by
  rw [HasStopped, h.callees_eq]
  constructor
  · intro hyp
    obtain ⟨kit, hmem⟩ := hyp
    obtain ⟨s, hs, heq⟩ := List.mem_map.1 hmem
    obtain ⟨hs, hdue⟩ := List.mem_filter.1 hs
    exact ⟨s, e.closingSlots_perm.mem_iff.1 hs, (Callee.hook.inj heq).1, hdue⟩
  · intro hyp
    obtain ⟨s, hs, rfl, hdue⟩ := hyp
    exact ⟨s.kit, List.mem_map_of_mem
      (List.mem_filter.2 ⟨e.closingSlots_perm.mem_iff.2 hs, hdue⟩)⟩

/-- Running modules are due. -/
theorem Biography.isRunning_iff (h : Biography cast e₀ C e) (huntouched : e₀.Untouched)
    (hnodup : e₀.modules.Nodup) :
    IsRunning m C ↔ ∃ s ∈ e.slots, s.module = m ∧ s.isDue = true := by
  cases h with
  | untouched hC =>
    refine iff_of_false (not_isRunning_of_isUneventful hC) ?_
    intro hyp
    obtain ⟨s, hs, _, hdue⟩ := hyp
    rw [huntouched.not_isDue s hs] at hdue
    cases hdue
  | @launched C C' tr r e hC hcourse hC' hopen =>
    rw [hcourse.exists_isDue_iff huntouched hnodup, ← List.singleton_append, ← List.append_assoc]
    constructor
    · intro hrunning
      rcases isRunning_snoc.1 (isRunning_of_append hC' hrunning) with hbegun | ⟨hrunning, _⟩
      · exact hbegun
      · exact absurd hrunning (not_isRunning_of_isUneventful hC)
    · exact fun hbegun => (isRunning_snoc.2 (.inl hbegun)).append hopen
  | @closed C C' C'' tr tr' r e c hC hcourse hC' hopen hstopping hC'' =>
    refine iff_of_false (fun hrunning => ?_) ?_
    · rw [List.append_cons] at hrunning
      rcases isRunning_snoc.1 (isRunning_of_append hC'' hrunning) with hbegun | ⟨_, hact⟩
      · exact hstopping.not_hasBegun hbegun
      · exact hact rfl
    · intro hyp
      obtain ⟨s, hs, _, hdue⟩ := hyp
      rw [hstopping.forall_not_isDue s hs] at hdue
      cases hdue

/-- A module's shutdown hook is called by a shutdown that finds the module running, and by no other
act. -/
theorem Chronicle.hasStopped_iff (hbuilt : Built A cast e₀) (h : Chronicle cast name e₀ C e)
    {before after : List (Act × List (Exchange A))} {a : Act}
    (hC : C = before ++ (a, tr) :: after) :
    HasStopped m tr ↔ a = .shutdown ∧ IsRunning m before := by
  obtain ⟨e₁, e₂, hbefore, hdone⟩ := h.split hC
  have hbiography := Chronicle.biography hbuilt.untouched hbefore
  rw [hbiography.isRunning_iff hbuilt.untouched hbuilt.arranged.nodup_modules]
  cases a with
  | launch =>
    refine iff_of_false ?_ (by simp)
    obtain ⟨r, hrun⟩ := hdone
    exact (Ensemble.launch_course hrun).not_hasStopped
  | shutdown =>
    obtain ⟨r, hrun⟩ := hdone
    cases Ensemble.shutdown_course hrun with
    | closed stuck hstopping => simp [hstopping.hasStopped_iff]
  | pause => exact iff_of_false (not_hasStopped_of_deeds_eq_nil hdone.1) (by simp)

/-- **Modules move forward.**  In every story of an ensemble that was built, what is stored of its
modules only moves forward, from the beginning to the end; each hook of a module is called at most
once, and the hooks in the order of the phases; and a shutdown hook is called exactly by the first
shutdown after the module's `init` hook has held. -/
theorem modules_move_forward {T : List (Request × List (Exchange A))} (hbuilt : Built A cast e₀)
    (hstory : Story cast name e₀ T e) :
    ((e₀.slots :: storedIn (deeds (exchanges T))).Pairwise Advances ∧
      (e₀.slots :: storedIn (deeds (exchanges T))).getLast? = some e.slots) ∧
    (∀ m p, (phasesOf m (calleesOf (deeds (exchanges T)))).count p ≤ 1) ∧
    (∀ m, (phasesOf m (calleesOf (deeds (exchanges T)))).Pairwise fun p q => p.rank < q.rank) ∧
    ∃ C, Chronicle cast name e₀ C e ∧ exchanges C = exchanges T ∧
      (actsOf C = T.flatMap fun x => x.1.acts) ∧
      ∀ m before a tr after, C = before ++ (a, tr) :: after →
        (HasStopped m tr ↔ a = .shutdown ∧ IsRunning m before) := by
  obtain ⟨C, hC, hexchanges, hacts⟩ := hstory.chronicle
  have hbiography := Chronicle.biography hbuilt.untouched hC
  have hpath := hbiography.path hbuilt.untouched
  have hphases : ∀ m, (phasesOf m (calleesOf (deeds (exchanges T)))).Sublist Phase.all := by
    intro m
    rw [← hexchanges]
    exact hbiography.phases_sublist hbuilt.arranged.nodup_modules
  have hranks : Phase.all.Pairwise fun p q => p.rank < q.rank := by decide
  have hnodup : Phase.all.Nodup := by decide
  rw [hexchanges] at hpath
  refine ⟨⟨hpath.pairwise, hpath.getLast?⟩, fun m p => ?_, fun m => hranks.sublist (hphases m), C, hC,
    hexchanges, hacts, fun m before a tr after hsplit => hC.hasStopped_iff hbuilt hsplit⟩
  exact List.nodup_iff_count_le_one.1 (hnodup.sublist (hphases m)) p

end

/-- An ensemble that is shut down, launched, and shut down again. -/
theorem modules_move_forward_sample :
    ∃ (T : List (Request × List (Exchange .bare))) (e : Ensemble),
      T.map Prod.fst = [.shutdown, .launch, .shutdown] ∧
      Story Cast.sample "sample" Ensemble.sample T e ∧
      ∃ C, Chronicle Cast.sample "sample" Ensemble.sample C e ∧ exchanges C = exchanges T ∧
        actsOf C = [.shutdown, .launch, .shutdown] ∧
        ∀ m before a tr after, C = before ++ (a, tr) :: after →
          (HasStopped m tr ↔ a = .shutdown ∧ IsRunning m before) := by
  obtain ⟨tr₁, e₁, h₁⟩ := Request.exists_done .bare (r := .shutdown) (by decide) Cast.sample
    "sample" Ensemble.sample
  obtain ⟨tr₂, e₂, h₂⟩ := Request.exists_done .bare (r := .launch) (by decide) Cast.sample
    "sample" e₁
  obtain ⟨tr₃, e₃, h₃⟩ := Request.exists_done .bare (r := .shutdown) (by decide) Cast.sample
    "sample" e₂
  have hstory := ((History.start.next h₁).next h₂).next h₃
  have hforward := modules_move_forward built_sample hstory
  exact ⟨_, e₃, rfl, hstory, hforward.2.2.2⟩

end Orchestra
