import Orchestra.Proofs.Announcing
import Orchestra.Proofs.LaunchVerdict
import Orchestra.Proofs.Lifecycle

/-!
# What comes of a shutdown

A shutdown deals with the slots that are due and with no others, whatever stages the slots are at.

* `Slot.stopped`, `Ensemble.stopped` — what becomes of a slot, and of an ensemble;
* `Ensemble.dueSlots`, `Ensemble.closingFaults` — whom a shutdown should call, and what it should
  report;
* `StoppingCourse.getElem?_slots`, `StoppingCourse.failures_eq` — what the hooks leave behind;
* `shutdown_stops_due` — a shutdown calls, marks, reports and tells just that, and leaves nothing
  to do for the next one.
-/

namespace Orchestra

variable {A : Application} {cast : Cast}

/-! ### What should come of it -/

/-- The slot once a shutdown has dealt with it. -/
def Slot.stopped (s : Slot) : Slot := if s.isDue then s.reached .shutdown else s

theorem Slot.isDue_reached_shutdown (s : Slot) : (s.reached .shutdown).isDue = false := rfl

theorem Slot.stopped_of_isDue {s : Slot} (h : s.isDue = true) : s.stopped = s.reached .shutdown :=
  if_pos h

theorem Slot.stopped_of_not_isDue {s : Slot} (h : s.isDue = false) : s.stopped = s :=
  if_neg (by simp [h])

theorem Slot.isDue_stopped (s : Slot) : s.stopped.isDue = false := by
  cases hdue : s.isDue with
  | true => rw [stopped_of_isDue hdue, isDue_reached_shutdown]
  | false => rw [stopped_of_not_isDue hdue, hdue]

theorem Slot.stopped_module (s : Slot) : s.stopped.module = s.module := by
  unfold stopped
  split <;> rfl

namespace Ensemble

/-- The ensemble once it has been shut down. -/
def stopped (e : Ensemble) : Ensemble := { e with slots := e.slots.map Slot.stopped }

/-- The slots that are due, in the order in which they are shut down. -/
def dueSlots (e : Ensemble) : List Slot := e.closingSlots.filter Slot.isDue

/-- The shutdown hooks that fail, among those that are due. -/
def closingFaults (cast : Cast) (e : Ensemble) (o : Outcomes) : List Fault :=
  e.dueSlots.filterMap fun s =>
    (o.failure? s.module .shutdown).map fun f => ⟨cast.name s.module, .shutdown, f, false⟩

theorem isDue_of_mem_stopped {e : Ensemble} : ∀ s ∈ e.stopped.slots, s.isDue = false := by
  intro s hs
  obtain ⟨t, -, rfl⟩ := List.mem_map.1 hs
  exact t.isDue_stopped

theorem dueSlots_stopped (e : Ensemble) : e.stopped.dueSlots = [] := by
  refine List.filter_eq_nil_iff.2 fun s hs => ?_
  rw [isDue_of_mem_stopped s (e.stopped.closingSlots_perm.mem_iff.1 hs)]
  exact Bool.false_ne_true

theorem stopped_stopped (e : Ensemble) : e.stopped.stopped = e.stopped := by
  have hslots : e.stopped.slots.map Slot.stopped = e.stopped.slots := by
    rw [List.map_congr_left fun s hs => Slot.stopped_of_not_isDue (isDue_of_mem_stopped s hs)]
    exact List.map_id' _
  rw [stopped, hslots]

end Ensemble

/-! ### What the hooks leave behind -/

section

variable {positions : List Nat} {c c' : Closing} {ds : List Deed}

/-- The slots at the given positions have been dealt with, and no others. -/
theorem StoppingCourse.getElem?_slots (h : StoppingCourse cast positions c ds c') (i : Nat) :
    c'.slots[i]? = if i ∈ positions then c.slots[i]?.map Slot.stopped else c.slots[i]? := by
  induction h with
  | done c => simp
  | @nobody j rest c c' ds hnone _ ih =>
    by_cases hij : i = j
    · subst hij
      simp [ih, hnone]
    · simp [ih, hij]
  | @idle j rest c c' ds s hslot hidle _ ih =>
    by_cases hij : i = j
    · subst hij
      simp [ih, hslot, Slot.stopped_of_not_isDue hidle]
    · simp [ih, hij]
  | @stopped j rest c c' ds s o hslot hdue _ ih =>
    rw [ih]
    by_cases hij : i = j
    · subst hij
      rw [List.getElem?_set_self (List.getElem?_eq_some_iff.1 hslot).1]
      simp [hslot, Slot.stopped_of_isDue hdue,
        Slot.stopped_of_not_isDue s.isDue_reached_shutdown]
    · rw [List.getElem?_set_ne (Ne.symm hij)]
      simp [hij]

theorem StoppingCourse.slots_eq {e : Ensemble}
    (h : StoppingCourse cast e.shutdownPositions ⟨e.slots, 0, []⟩ ds c') :
    c'.slots = e.slots.map Slot.stopped := by
  refine List.ext_getElem? fun i => ?_
  rw [h.getElem?_slots, List.getElem?_map]
  split
  · rfl
  next hi =>
    rw [Ensemble.mem_shutdownPositions, Nat.not_lt] at hi
    simp [List.getElem?_eq_none hi]

/-- The fault that a call of a shutdown hook gives, if it fails. -/
def closingFault? (cast : Cast) : Callee × Outcome → Option Fault
  | (.hook m _ _, .error f) => some ⟨cast.name m, .shutdown, f, false⟩
  | _ => none

/-- The calls that failed are reported, in order. -/
theorem StoppingCourse.failures_eq (h : StoppingCourse cast positions c ds c') :
    c'.failures = c.failures ++ (callsOf ds).filterMap (closingFault? cast) := by
  induction h with
  | done c => simp
  | nobody _ _ ih => exact ih
  | idle _ _ _ ih => exact ih
  | stopped o _ _ _ ih =>
    rw [ih, List.append_assoc, callsOf_called, callsOf_stored, List.filterMap_cons]
    cases o <;> rfl

/-- The calls of hooks of one phase, with what comes of them. -/
theorem Follows.calls_eq {o : Outcomes} {calls : List (Callee × Outcome)} {slots : List Slot}
    {p : Phase} (ho : Follows o calls) (h : calls.map Prod.fst = slots.map fun s => s.hook p) :
    calls = slots.map fun s => (s.hook p, o s.module p) := by
  induction slots generalizing calls with
  | nil => simpa using h
  | cons s rest ih =>
    obtain ⟨x, calls, rfl, hx, hcalls⟩ := List.map_eq_cons_iff.1 h
    obtain ⟨c, y⟩ := x
    obtain rfl : c = s.hook p := hx
    have hy : y = o s.module p := ho _ _ _ _ List.mem_cons_self
    have hrest : Follows o calls := fun m q kit z hz => ho m q kit z (List.mem_cons_of_mem _ hz)
    rw [List.map_cons, ih hrest hcalls, hy]

theorem StoppingCourse.closingFaults_eq {e : Ensemble} {o : Outcomes}
    (h : StoppingCourse cast e.shutdownPositions ⟨e.slots, 0, []⟩ ds c')
    (ho : Follows o (callsOf ds)) : c'.failures = e.closingFaults cast o := by
  have hcalls : callsOf ds = e.dueSlots.map fun s => (s.hook .shutdown, o s.module .shutdown) :=
    ho.calls_eq h.callees_eq
  rw [h.failures_eq, hcalls, List.filterMap_map, List.nil_append]
  refine List.filterMap_congr fun s _ => ?_
  show closingFault? cast (s.hook .shutdown, o s.module .shutdown) = _
  unfold Outcomes.failure?
  cases o s.module .shutdown <;> rfl

end

/-! ### Shutdowns -/

variable {name : String} {e : Ensemble}

/-- What every run of a shutdown does with the modules and tells the bus. -/
theorem Ensemble.shutdown_run {tr : List (Exchange A)} {r : ShutdownSummary × Ensemble}
    (h : Program.Run (e.shutdown cast name) tr r) :
    calleesOf (deeds tr) = e.dueSlots.map (fun s => s.hook .shutdown) ∧
      Announced cast e.bus tr (closingEvents e.dueSlots.length) ∧
      ∀ o, Follows o (callsOf (deeds tr)) →
        ∃ stuck, r = (⟨e.closingFaults cast o, stuck⟩, e.stopped) := by
  have htold := shutdown_announced h
  have hcourse := shutdown_course h
  generalize deeds tr = ds at htold hcourse ⊢
  cases hcourse with
  | closed stuck hstopping =>
    have hcallees := hstopping.callees_eq
    refine ⟨hcallees, ?_, fun o ho => ⟨stuck, ?_⟩⟩
    · rwa [hcallees, List.length_map] at htold
    · rw [hstopping.closingFaults_eq ho, hstopping.slots_eq]
      rfl

theorem follows_nil (o : Outcomes) : Follows o [] :=
  fun _ _ _ _ hx => (List.not_mem_nil hx).elim

/-- Where nothing is due, a shutdown calls nobody, tells nothing and changes nothing. -/
theorem Ensemble.shutdown_run_of_idle {tr : List (Exchange A)} {r : ShutdownSummary × Ensemble}
    (h : Program.Run (e.stopped.shutdown cast name) tr r) :
    calleesOf (deeds tr) = [] ∧ Announced cast e.bus tr [] ∧
      ∃ stuck, r = (⟨[], stuck⟩, e.stopped) := by
  obtain ⟨hcallees, htold, hresult⟩ := shutdown_run h
  rw [dueSlots_stopped] at hcallees htold
  have hcalls : callsOf (deeds tr) = [] := List.map_eq_nil_iff.1 hcallees
  obtain ⟨stuck, hr⟩ := hresult (fun _ _ => .ok ()) (hcalls ▸ follows_nil _)
  rw [closingFaults, dueSlots_stopped, stopped_stopped] at hr
  exact ⟨hcallees, htold, stuck, hr⟩

/-- **A shutdown stops what is due, once.**  Whatever stages the slots are at and whatever the hooks
come to, it comes to its end having called the hooks of the slots that are due, in the closing order;
they are at the last stage then, and no other slot has changed.  It reports those that failed, and
tells the bus once how many there were, if any.  Another shutdown right after it, whoever answers,
finds nothing to do. -/
theorem shutdown_stops_due (cast : Cast) (name : String) (e : Ensemble) (o : Outcomes)
    {σ : Answerer A} (hobliging : σ.IsObliging) (hσ : σ.Realizes o) (past : List (Exchange A)) :
    ∃ tr stuck,
      (e.shutdown cast name).play σ past
        = (tr, some (⟨e.closingFaults cast o, stuck⟩, e.stopped)) ∧
      calleesOf (deeds tr) = e.dueSlots.map (fun s => s.hook .shutdown) ∧
      Announced cast e.bus tr (closingEvents e.dueSlots.length) ∧
      ∀ σ' : Answerer A, σ'.IsObliging → ∀ past', ∃ tr' stuck',
        (e.stopped.shutdown cast name).play σ' past' = (tr', some (⟨[], stuck'⟩, e.stopped)) ∧
        calleesOf (deeds tr') = [] ∧ Announced cast e.bus tr' [] := by
  have hasked : ∀ e : Ensemble,
      (e.shutdown (A := A) cast name).Only fun op => Nonempty op.Answer :=
    fun _ => Ensemble.only_shutdown
  obtain ⟨tr, r, hplay, hrun, hgave⟩ := Program.exists_play hobliging (hasked e) past
  obtain ⟨hcallees, htold, hresult⟩ := Ensemble.shutdown_run hrun
  obtain ⟨stuck, rfl⟩ := hresult o (hgave.follows_of_realizes hσ)
  refine ⟨tr, stuck, hplay, hcallees, htold, fun σ' hobliging' past' => ?_⟩
  obtain ⟨tr', r', hplay', hrun', -⟩ := Program.exists_play hobliging' (hasked e.stopped) past'
  obtain ⟨hcallees', htold', stuck', rfl⟩ := Ensemble.shutdown_run_of_idle hrun'
  exact ⟨tr', stuck', hplay', hcallees', htold'⟩

/-- The sample after a launch in which one module was skipped and the last did not get far. -/
def Ensemble.halfway : Ensemble :=
  { Ensemble.sample with
    launched := true
    slots := List.zipWith (fun s (x : Stage × Bool) => { s with stage := x.1, active := x.2 })
      Ensemble.sample.slots
      [(.launched, true), (.preLaunched, false), (.shutdown, true), (.asserted, true)] }

/-- One shutdown hook panics. -/
def Outcomes.closing : Outcomes := fun m p =>
  if m = 1 ∧ p = .shutdown then .error (.panicked "no terminal") else .ok ()

/-- Two modules are due, the skipped one among them, and the later one is shut down first. -/
theorem shutdown_stops_due_halfway :
    ∃ tr stuck,
      (Ensemble.halfway.shutdown (A := .bare) Cast.sample "sample").play
          (.prompt Outcomes.closing) []
        = (tr, some (⟨[⟨"console", .shutdown, .panicked "no terminal", false⟩], stuck⟩,
            Ensemble.halfway.stopped)) ∧
      (Ensemble.halfway.stopped.slots.map Slot.stage
        = [.shutdown, .shutdown, .shutdown, .asserted]) ∧
      calleesOf (deeds tr) = [.hook 1 .shutdown ⟨0, "console", .console, ⟨1⟩, 0, 0, 0⟩,
        .hook 0 .shutdown ⟨0, "credentials", .credentials, ⟨0⟩, 0, 0, 0⟩] ∧
      Announced Cast.sample 0 tr [.phaseCompleted .shutdown 2] := by
  obtain ⟨tr, stuck, hplay, hcallees, htold, -⟩ :=
    shutdown_stops_due Cast.sample "sample" Ensemble.halfway Outcomes.closing
      (Answerer.isObliging_prompt (A := .bare) _) (Answerer.realizes_prompt _) []
  exact ⟨tr, stuck, hplay, rfl, hcallees, htold⟩

end Orchestra
