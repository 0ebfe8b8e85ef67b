import Orchestra.Proofs.Course
import Orchestra.Proofs.Handing

/-!
# What a program tells the bus

* `Op.IsSilent` — an operation that has no part in handing an event to listeners;
* `Announced` — exchanges in which some events, and no others, were handed to the listeners of a bus,
  one after another;
* `Announced.handed` — what has been announced has been handed to everybody that the bus had;
* `Announced.append`, `Program.Run.announced` — exchanges one after another, and silent ones;
* `only_closeSlots_isSilent`, `only_dismiss_isSilent` — the parts of a shutdown that tell nothing;
* `Ensemble.shutdown_announced` — what a shutdown tells;
* `Program.Announces` — a program that tells the bus events of one sort only;
* `Ensemble.launch_announces` — a launch tells of its phases and of nothing else;
* `ServeCourse.announced` — serving tells of a shutdown once if there was a wait, and otherwise never.
-/

namespace Orchestra

variable {A : Application} {cast : Cast}

/-- An operation that has no part in handing an event to listeners. -/
def Op.IsSilent : Op A → Prop
  | .call (.onEvent ..) _ | .enclosing _ | .beginDelivery _ | .endDelivery => False
  | _ => True

theorem Op.CallsHooks.isSilent {op : Op A} {p : Phase} (h : op.CallsHooks p) : op.IsSilent := by
  unfold CallsHooks at h
  split at h <;> trivial

theorem Op.Prepares.isSilent {op : Op A} (h : op.Prepares) : op.IsSilent := by
  unfold Prepares at h
  split at h <;> trivial

theorem Op.Dismisses.isSilent {op : Op A} (h : op.Dismisses) : op.IsSilent := by
  unfold Dismisses at h
  split at h <;> trivial

/-- Through the exchanges the events were published on a bus one after another, each to all of its
listeners, and nothing else was handed to anybody. -/
inductive Announced (cast : Cast) (bus : BusId) : List (Exchange A) → List Event → Prop where
  | nil : Announced cast bus [] []
  | silent {x : Exchange A} {tr : List (Exchange A)} {events : List Event} : x.op.IsSilent →
      Announced cast bus tr events → Announced cast bus (x :: tr) events
  | published {tr tr' : List (Exchange A)} {event : Event} {events : List Event} {d : Delivery} :
      Program.Run (Bus.emit cast bus event) tr d → Announced cast bus tr' events →
      Announced cast bus (tr ++ tr') (event :: events)

theorem Op.AwaitsEnd.isSilent {request : TokenId} {op : Op A} (h : op.AwaitsEnd request) : op.IsSilent := by
  unfold AwaitsEnd at h
  split at h <;> trivial

section

variable {bus : BusId} {tr tr' : List (Exchange A)} {events events' : List Event}

/-- Nobody is handed anything in a silent exchange, or is about to hand anything to anybody. -/
theorem Exchange.nobody_of_isSilent (bus : BusId) {x : Exchange A} (h : x.op.IsSilent) :
    x.handed? = none ∧ x.audience? bus = none := by
  obtain ⟨op, answer⟩ := x
  cases op with
  | call callee limit =>
    cases callee with
    | onEvent l event => exact h.elim
    | _ => exact ⟨rfl, rfl⟩
  | enclosing _ | beginDelivery _ => exact h.elim
  | _ => exact ⟨rfl, rfl⟩

/-- **What has been announced has been handed to everybody.**  Each of the events has been handed, with its
priority and in the order of registration, to all the listeners that the bus had when its turn came, and nobody
has been handed anything else. -/
theorem Announced.handed (h : Announced cast bus tr events) :
    (audiencesIn bus tr).length = events.length ∧ (handedIn tr).map Prod.fst =
      ((audiencesIn bus tr).zip events).flatMap fun (set, event) => set.map fun l => (l, event, event.priority) := by
  induction h with
  | nil => exact ⟨rfl, rfl⟩
  | @silent x tr events hsilent _ ih =>
    obtain ⟨hhanded, haudience⟩ := Exchange.nobody_of_isSilent bus hsilent
    have hhanded' : handedIn (x :: tr) = handedIn tr := List.filterMap_cons_none hhanded
    have haudiences : audiencesIn bus (x :: tr) = audiencesIn bus tr := List.filterMap_cons_none haudience
    rw [hhanded', haudiences]
    exact ih
  | @published first rest event events d hrun _ ih =>
    obtain ⟨set, ⟨-, haudience⟩, hhanded, -⟩ := Bus.run_publish hrun
    have hall : set.filter (Bus.isMeant cast none) = set := List.filter_eq_self.2 fun _ _ => rfl
    rw [hall] at hhanded
    rw [audiencesIn_append, handedIn_append, List.map_append, haudience, hhanded, ih.2]
    exact ⟨congrArg (· + 1) ih.1, rfl⟩

theorem Announced.append (h : Announced cast bus tr events) (h' : Announced cast bus tr' events') :
    Announced cast bus (tr ++ tr') (events ++ events') := by
  induction h with
  | nil => exact h'
  | silent hsilent _ ih => exact .silent hsilent ih
  | published hrun _ ih =>
    rw [List.append_assoc]
    exact .published hrun ih

theorem announced_of_silent (h : ∀ x ∈ tr, x.op.IsSilent) : Announced cast bus tr [] := by
  induction tr with
  | nil => exact .nil
  | cons x rest ih =>
    exact .silent (h x List.mem_cons_self) (ih fun y hy => h y (List.mem_cons_of_mem _ hy))

/-- A silent program tells nothing. -/
theorem Program.Run.announced {α : Type} {p : Program A α} {a : α} (h : Program.Run p tr a)
    (hp : p.Only Op.IsSilent) : Announced cast bus tr [] :=
  announced_of_silent (h.forall_of_only hp)

end

/-! ### The parts of a shutdown -/

/-- What is told once so many shutdown hooks have run. -/
def closingEvents (ran : Nat) : List Event :=
  if 0 < ran then [.phaseCompleted .shutdown ran] else []

namespace Ensemble

variable {name : String} {e : Ensemble}

theorem only_closeSlots_isSilent (positions : List Nat) (c : Closing) :
    (closeSlots (A := A) cast name e positions c).Only Op.IsSilent :=
  (closeSlots_callsHooks ..).mono fun _ h => h.isSilent

theorem only_dismiss_isSilent (failures : List Fault) :
    (dismiss (A := A) cast e failures).Only Op.IsSilent :=
  (dismiss_dismisses failures).mono fun _ h => h.isSilent

theorem announceClosing_announced {bus : BusId} {ran : Nat} {tr : List (Exchange A)} {x : Unit}
    (h : Program.Run (announceClosing cast bus ran) tr x) :
    Announced cast bus tr (closingEvents ran) := by
  unfold announceClosing at h
  unfold closingEvents
  by_cases hran : 0 < ran
  · rw [if_pos hran] at h ⊢
    obtain ⟨tr, d, rest, rfl, hemit, hend⟩ := Program.run_bind_iff.1 h
    obtain ⟨rfl, -⟩ := Program.run_pure_iff.1 hend
    exact .published hemit .nil
  · rw [if_neg hran] at h ⊢
    obtain ⟨rfl, -⟩ := Program.run_pure_iff.1 h
    exact .nil

end Ensemble

/-- As many hooks have run as have been called. -/
theorem StoppingCourse.ran_eq {positions : List Nat} {c c' : Closing} {ds : List Deed}
    (h : StoppingCourse cast positions c ds c') : c'.ran = c.ran + (calleesOf ds).length := by
  induction h with
  | done c => rfl
  | nobody _ _ ih => exact ih
  | idle _ _ _ ih => exact ih
  | stopped o _ _ _ ih =>
    rw [ih, calleesOf_called, calleesOf_stored, List.length_cons, Nat.add_assoc, Nat.add_comm 1]

/-- A shutdown tells the bus how many hooks have run, if any have, and nothing else. -/
theorem Ensemble.shutdown_announced {name : String} {e : Ensemble} {tr : List (Exchange A)}
    {r : ShutdownSummary × Ensemble} (h : Program.Run (e.shutdown cast name) tr r) :
    Announced cast e.bus tr (closingEvents (calleesOf (deeds tr)).length) := by
  obtain ⟨hooks, c, announced, dismissed, rfl, hdeeds, hclose, hannounce, hdismiss⟩ := shutdown_parts h
  have hran : c.ran = (calleesOf (deeds (hooks ++ (announced ++ dismissed)))).length := by
    rw [hdeeds, (closeSlots_course hclose).ran_eq, Nat.zero_add]
  have hsilent : Announced cast e.bus hooks [] := hclose.announced (only_closeSlots_isSilent ..)
  have htail : Announced cast e.bus dismissed [] := hdismiss.announced (only_dismiss_isSilent _)
  rw [← hran, ← List.append_nil (closingEvents c.ran)]
  exact hsilent.append ((announceClosing_announced hannounce).append htail)

/-! ### Programs that tell events of one sort -/

section

variable {α β : Type} {bus : BusId} {E : Event → Prop}

/-- Every run of a program tells a bus events of one sort, and hands nothing else to anybody. -/
def Program.Announces (cast : Cast) (bus : BusId) (E : Event → Prop) (p : Program A α) : Prop :=
  ∀ tr a, p.Run tr a → ∃ events, Announced cast bus tr events ∧ ∀ event ∈ events, E event

namespace Program

theorem announces_of_silent {p : Program A α} (h : p.Only Op.IsSilent) : p.Announces cast bus E :=
  fun _ _ hrun => ⟨[], hrun.announced h, nofun⟩

theorem announces_pure (a : α) : Announces cast bus E (pure a : Program A α) :=
  announces_of_silent (only_pure a)

theorem announces_bind {p : Program A α} {f : α → Program A β} (hp : p.Announces cast bus E)
    (hf : ∀ a, (f a).Announces cast bus E) : (p >>= f).Announces cast bus E := by
  intro tr b hrun
  obtain ⟨first, a, rest, rfl, hfirst, hrest⟩ := run_bind_iff.1 hrun
  obtain ⟨events, htold, hevents⟩ := hp _ _ hfirst
  obtain ⟨events', htold', hevents'⟩ := hf a _ _ hrest
  refine ⟨events ++ events', htold.append htold', fun event hmem => ?_⟩
  rcases List.mem_append.1 hmem with h | h
  · exact hevents event h
  · exact hevents' event h

theorem announces_emit {event : Event} (h : E event) :
    Announces cast bus E (Bus.emit (A := A) cast bus event) := by
  intro tr d hrun
  have htold : Announced cast bus (tr ++ []) [event] := .published hrun .nil
  rw [List.append_nil] at htold
  exact ⟨[event], htold, fun event' hmem => List.mem_singleton.1 hmem ▸ h⟩

end Program

end

/-- What is told of a phase: that a hook has failed, or that the phase is completed. -/
def Event.IsOfPhase : Event → Prop
  | .phaseCompleted .. | .moduleFaulted .. => True
  | _ => False

namespace Ensemble

variable {name : String} {e : Ensemble}

theorem announceFault_announces (bus : BusId) (module : String) (p : Phase) (f : HookFailure)
    (escalated : Bool) : (announceFault (A := A) cast bus module p f escalated).Announces cast bus
      Event.IsOfPhase :=
  Program.announces_bind (Program.announces_emit trivial) fun _ => Program.announces_pure ()

theorem runSlots_announces (p : Phase) (ran : Nat) (passed : List Slot) (faults : List Fault)
    (rest : List Slot) : (runSlots (A := A) cast name e p ran passed faults rest).Announces cast e.bus
      Event.IsOfPhase := by
  have hask : ∀ op : Op A, op.IsSilent → (Program.ask op).Announces cast e.bus Event.IsOfPhase :=
    fun op h => Program.announces_of_silent (Program.only_ask h)
  induction rest generalizing ran passed faults with
  | nil =>
    refine Program.announces_bind (hask _ trivial) fun _ => ?_
    exact Program.announces_bind (Program.announces_emit trivial) fun _ => Program.announces_pure _
  | cons s rest ih =>
    rw [runSlots]
    split
    · exact ih _ _ _
    refine Program.announces_bind (hask _ trivial) fun o => ?_
    rcases o with f | ⟨⟩
    case ok => exact Program.announces_bind (hask _ trivial) fun _ => ih _ _ _
    dsimp only
    split
    · refine Program.announces_bind (hask _ trivial) fun _ => ?_
      exact Program.announces_bind (announceFault_announces _ _ _ _ _) fun _ => Program.announces_pure _
    · split
      · refine Program.announces_bind (hask _ trivial) fun _ => ?_
        refine Program.announces_bind (hask _ trivial) fun _ => ?_
        exact Program.announces_bind (announceFault_announces _ _ _ _ _) fun _ => ih _ _ _
      · refine Program.announces_bind (hask _ trivial) fun _ => ?_
        refine Program.announces_bind (hask _ trivial) fun _ => ?_
        exact Program.announces_bind (announceFault_announces _ _ _ _ _) fun _ => ih _ _ _

theorem runPhases_announces (slots : List Slot) (faults : List Fault) (ps : List Phase) :
    (runPhases (A := A) cast name e slots faults ps).Announces cast e.bus Event.IsOfPhase := by
  induction ps generalizing slots faults with
  | nil => exact Program.announces_pure _
  | cons p rest ih =>
    refine Program.announces_bind (Program.announces_of_silent (Program.only_ask trivial)) fun _ => ?_
    refine Program.announces_bind (runSlots_announces _ _ _ _ _) fun P => ?_
    split
    · exact Program.announces_pure _
    · exact ih _ _

/-- A launch tells of its phases, and of nothing else. -/
theorem launch_announces :
    (e.launch (A := A) cast name).Announces cast e.bus Event.IsOfPhase := by
  rw [launch]
  split
  · exact Program.announces_pure _
  refine Program.announces_bind (Program.announces_of_silent (Program.only_ask trivial)) fun _ => ?_
  refine Program.announces_bind (Program.announces_of_silent
    ((assertFrom_callsHooks ..).mono fun _ h => h.isSilent)) fun P => ?_
  dsimp only
  split
  · exact Program.announces_pure _
  split
  · exact Program.announces_pure _
  refine Program.announces_bind (Program.announces_of_silent
    ((prepareAll_prepares ..).mono fun _ h => h.isSilent)) fun _ => ?_
  refine Program.announces_bind (runPhases_announces _ _ _) fun Q => ?_
  split
  · exact Program.announces_pure _
  · refine Program.announces_bind (Program.announces_of_silent (Program.only_ask trivial)) fun _ => ?_
    exact Program.announces_pure _

/-- A shutdown tells of its phase, and of nothing else. -/
theorem shutdown_announces :
    (e.shutdown (A := A) cast name).Announces cast e.bus Event.IsOfPhase := by
  intro tr r hrun
  refine ⟨_, shutdown_announced hrun, fun event hmem => ?_⟩
  unfold closingEvents at hmem
  split at hmem
  · obtain rfl := List.mem_singleton.1 hmem
    trivial
  · cases hmem

end Ensemble

/-- **Serving tells of a shutdown once, after the launch and before the shutdown hooks, if there was a wait**,
and otherwise never; apart from that it tells of the phases. -/
theorem ServeCourse.announced {name : String} {e : Ensemble} {tr : List (Exchange A)}
    {cause : Option Termination} {r : Except LaunchFailure ShutdownSummary × Ensemble}
    (h : ServeCourse cast name e tr cause r) : ∃ before after,
      Announced cast e.bus tr
        (before ++ (cause.map fun c => Event.shutdownRequested c.reason).toList ++ after) ∧
      ∀ event ∈ before ++ after, event.IsOfPhase := by
  have hparts : ∀ {launched closed : List (Exchange A)} {l : Except LaunchFailure LaunchSummary × Ensemble}
      {c : ShutdownSummary × Ensemble}, Program.Run (e.launch cast name) launched l →
      Program.Run (l.2.shutdown cast name) closed c → ∃ before after,
        Announced cast e.bus launched before ∧ Announced cast e.bus closed after ∧
        ∀ event ∈ before ++ after, event.IsOfPhase := by
    intro launched closed l c hlaunch hclose
    obtain ⟨before, hbefore, hphases⟩ := Ensemble.launch_announces _ _ hlaunch
    obtain ⟨after, hafter, hphase⟩ := Ensemble.shutdown_announces _ _ hclose
    have hbus : l.2.bus = e.bus := by rw [(Ensemble.launch_course hlaunch).eq_with]
    rw [hbus] at hafter
    refine ⟨before, after, hbefore, hafter, fun event hmem => ?_⟩
    rcases List.mem_append.1 hmem with h | h
    · exact hphases event h
    · exact hphase event h
  cases h with
  | failed record hlaunch _ hclose =>
    obtain ⟨before, after, hbefore, hafter, hphases⟩ := hparts hlaunch hclose
    refine ⟨before, after, ?_, hphases⟩
    rw [Option.map_none, Option.toList_none, List.append_nil]
    exact hbefore.append (.silent trivial hafter)
  | ended record hlaunch hwait htold hclose =>
    obtain ⟨before, after, hbefore, hafter, hphases⟩ := hparts hlaunch hclose
    have hwaited : Announced cast e.bus _ [] :=
      hwait.announced ((Ensemble.awaitEnd_awaitsEnd _).mono fun _ h => h.isSilent)
    refine ⟨before, after, ?_, hphases⟩
    rw [Option.map_some, Option.toList_some, List.append_assoc]
    exact hbefore.append (hwaited.append (.silent trivial (.published htold hafter)))

end Orchestra
