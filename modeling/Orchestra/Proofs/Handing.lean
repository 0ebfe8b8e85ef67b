import Orchestra.Proofs.Run
import Orchestra.Publishing

/-!
# Who is handed an event

* `Exchange.handed?`, `handedIn` — whom a run hands an event, with which priority, and what came of it;
* `handedIn_eq_map` — where that is settled by who is handed what;
* `listenersRead` — the listeners that a publication works from;
* `Exchange.audience?`, `audiencesIn` — the listeners that a bus has named in a run;
* `Bus.run_deliverTo`, `Bus.run_publish` — whom a publication hands the event, and what it answers.
-/

namespace Orchestra

variable {A : Application}

/-! ### What is read off a run -/

/-- What a listener is handed when it is called. -/
def Callee.handed : Callee → Option (ListenerId × Event × Priority)
  | onEvent l event => some (l, event, event.priority)
  | _ => none

/-- What a listener is handed in an exchange, with what comes of it. -/
def Exchange.handed? : Exchange A → Option ((ListenerId × Event × Priority) × Outcome)
  | ⟨.call callee _, o⟩ => callee.handed.map fun h => (h, o)
  | _ => none

/-- What listeners are handed in a run, one after another, with what comes of it. -/
def handedIn (tr : List (Exchange A)) : List ((ListenerId × Event × Priority) × Outcome) :=
  tr.filterMap Exchange.handed?

/-- The listeners of a bus that somebody is told in an exchange who is about to hand them an event. -/
def Exchange.audience? (bus : BusId) : Exchange A → Option (List ListenerId)
  | ⟨.enclosing b, some set⟩ => if b = bus then some set else none
  | ⟨.beginDelivery b, set⟩ => if b = bus then some set else none
  | _ => none

/-- The listeners of a bus as they are told in a run, once for each time that they are handed an event. -/
def audiencesIn (bus : BusId) (tr : List (Exchange A)) : List (List ListenerId) :=
  tr.filterMap (Exchange.audience? bus)

/-- The listeners that a publication works from: those of the delivery that it is part of, or else
those that the bus has. -/
def listenersRead : List (Exchange A) → Option (List ListenerId)
  | ⟨.enclosing _, some set⟩ :: _ => some set
  | ⟨.enclosing _, none⟩ :: ⟨.beginDelivery _, set⟩ :: _ => some set
  | _ => none

/-- A delivery's count with one more listener. -/
def Delivery.counted (cast : Cast) (d : Delivery) :
    (ListenerId × Event × Priority) × Outcome → Delivery
  | (_, .ok ()) => d.handled
  | ((l, _), .error e) => d.failed (cast.name l) e

section

variable {tr tr' : List (Exchange A)} {bus : BusId}

@[simp] theorem handedIn_nil : handedIn ([] : List (Exchange A)) = [] := rfl

@[simp] theorem audiencesIn_nil : audiencesIn bus ([] : List (Exchange A)) = [] := rfl

@[simp] theorem handedIn_append : handedIn (tr ++ tr') = handedIn tr ++ handedIn tr' :=
  List.filterMap_append

@[simp] theorem audiencesIn_append : audiencesIn bus (tr ++ tr') = audiencesIn bus tr ++ audiencesIn bus tr' :=
  List.filterMap_append

@[simp] theorem audiencesIn_enclosing (set : List ListenerId) :
    audiencesIn bus (⟨.enclosing bus, some set⟩ :: tr) = set :: audiencesIn bus tr :=
  List.filterMap_cons_some (if_pos rfl)

@[simp] theorem audiencesIn_beginDelivery (set : List ListenerId) :
    audiencesIn bus (⟨.beginDelivery bus, set⟩ :: tr) = set :: audiencesIn bus tr :=
  List.filterMap_cons_some (if_pos rfl)

/-- If what comes of a call depends on who is called with what, it is settled by that. -/
theorem handedIn_eq_map {fate : ListenerId × Event × Priority → Outcome}
    (h : ∀ p ∈ handedIn tr, p.2 = fate p.1) :
    handedIn tr = ((handedIn tr).map Prod.fst).map fun called => (called, fate called) := by
  rw [List.map_map]
  refine (List.map_id _).symm.trans (List.map_congr_left fun p hp => ?_)
  exact Prod.ext rfl (h p hp)

end

/-! ### Publications -/

namespace Bus

variable {cast : Cast} {bus : BusId} {event : Event} {targets : Option TargetSet}
  {tr : List (Exchange A)} {d d' : Delivery}

/-- A delivery hands the event to one listener after the other, whatever comes of it. -/
theorem run_deliverTo {set : List ListenerId}
    (h : Program.Run (deliverTo cast bus event set d) tr d') :
    (handedIn tr).map Prod.fst = set.map (fun l => (l, event, event.priority)) ∧
      d' = (handedIn tr).foldl (Delivery.counted cast) d ∧ audiencesIn bus tr = [] := by
  induction set generalizing tr d with
  | nil =>
    obtain ⟨rfl, rfl⟩ := Program.run_pure_iff.1 h
    exact ⟨rfl, rfl, rfl⟩
  | cons l rest ih =>
    obtain ⟨o, tr₁, rfl, hnext⟩ := Program.run_ask_bind_iff.1 h
    cases o with
    | ok o =>
      obtain ⟨hhanded, hd, hnobody⟩ := ih hnext
      exact ⟨congrArg (_ :: ·) hhanded, hd, hnobody⟩
    | error e =>
      obtain ⟨_, tr₂, rfl, hrest⟩ := Program.run_ask_bind_iff.1 hnext
      obtain ⟨hhanded, hd, hnobody⟩ := ih hrest
      exact ⟨congrArg (_ :: ·) hhanded, hd, hnobody⟩

/-- Nobody is handed anything while the bus is released. -/
theorem run_noteUnmatched (bus : BusId) (h : Program.Run (noteUnmatched event targets d) tr ()) :
    handedIn tr = [] ∧ audiencesIn bus tr = [] := by
  unfold noteUnmatched at h
  split at h
  · split at h
    · obtain ⟨_, rest, rfl, hdone⟩ := Program.run_perform_iff.1 h
      obtain ⟨rfl, -⟩ := Program.run_done_iff.1 hdone
      exact ⟨rfl, rfl⟩
    · obtain ⟨rfl, -⟩ := Program.run_pure_iff.1 h
      exact ⟨rfl, rfl⟩
  · obtain ⟨rfl, -⟩ := Program.run_pure_iff.1 h
    exact ⟨rfl, rfl⟩

/-- A publication hands the event to those that it is meant for among the listeners that it works
from, and answers what comes of that. -/
theorem run_publish (h : Program.Run (publish cast bus event targets) tr d) :
    ∃ set, (listenersRead tr = some set ∧ audiencesIn bus tr = [set]) ∧
      (handedIn tr).map Prod.fst =
        (set.filter (isMeant cast targets)).map (fun l => (l, event, event.priority)) ∧
      d = (handedIn tr).foldl (Delivery.counted cast) {} := by
  obtain ⟨held, tr₁, rfl, hheld⟩ := Program.run_ask_bind_iff.1 h
  cases held with
  | some set =>
    obtain ⟨hhanded, hd, hnobody⟩ := run_deliverTo hheld
    exact ⟨set, ⟨rfl, by rw [audiencesIn_enclosing, hnobody]⟩, hhanded, hd⟩
  | none =>
    obtain ⟨set, tr₂, rfl, hbegun⟩ := Program.run_ask_bind_iff.1 hheld
    obtain ⟨first, d₁, rest, rfl, hdeliver, hafter⟩ := Program.run_bind_iff.1 hbegun
    obtain ⟨_, tr₃, rfl, hreleased⟩ := Program.run_ask_bind_iff.1 hafter
    obtain ⟨noted, _, last, rfl, hnote, hdone⟩ := Program.run_bind_iff.1 hreleased
    obtain ⟨rfl, rfl⟩ := Program.run_pure_iff.1 hdone
    obtain ⟨hhanded, hd, hnobody⟩ := run_deliverTo hdeliver
    obtain ⟨hquiet, hnobody'⟩ := run_noteUnmatched bus hnote
    have hall : handedIn (first ++ ⟨.endDelivery, ()⟩ :: (noted ++ [])) = handedIn first := by
      rw [handedIn_append, List.append_nil]
      show handedIn first ++ handedIn noted = _
      rw [hquiet, List.append_nil]
    have hnamed : audiencesIn bus (⟨.beginDelivery bus, set⟩ ::
        (first ++ ⟨.endDelivery, ()⟩ :: (noted ++ []))) = [set] := by
      rw [audiencesIn_beginDelivery, audiencesIn_append, hnobody, List.append_nil]
      show [set] ++ audiencesIn bus noted = [set]
      rw [hnobody', List.append_nil]
    exact ⟨set, ⟨rfl, hnamed⟩, hall ▸ hhanded, hall ▸ hd⟩

end Bus

end Orchestra
