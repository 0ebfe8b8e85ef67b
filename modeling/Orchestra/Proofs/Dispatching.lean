import Orchestra.Proofs.Binding
import Orchestra.Proofs.Consistency
import Orchestra.Proofs.Visiting

/-!
# Dispatching is publishing

An event can be published as it is, or by its key and its fields.  For the lifecycle events both come
to the same, whatever else is bound in the catalogue; and what cannot be built is not published.

* `EventCatalogue.eventFor_fields` — the fields of a lifecycle event, and anything after them, build
  the event again, in every catalogue that grew from that of the lifecycle events;
* `Bus.dispatch_of_ok`, `Bus.dispatch_of_error` — what can be built is published, and nothing else is;
* `dispatch_is_publication` — the two ways of publishing are one.
-/

namespace Orchestra

open Machine

variable {A : Application} {α : Type}

/-! ### The lifecycle events are built of their fields -/

/-- An event of the orchestrator's own. -/
def Event.IsLifecycle : Event → Prop
  | .app _ => False
  | _ => True

namespace EventCatalogue

variable {e : Event}

/-- The key of a lifecycle event is bound to a constructor that reads its fields, in their order, and
looks no further. -/
theorem lifecycle_find? (h : e.IsLifecycle) :
    ∃ make, lifecycle.find? e.key = some make ∧
      ∀ extra, make ⟨e.fieldArguments ++ extra⟩ = .ok e := by
  cases e with
  | phaseCompleted phase modules => exact ⟨.phaseCompleted, rfl, fun _ => rfl⟩
  | moduleFaulted module phase reason escalated => exact ⟨.moduleFaulted, rfl, fun _ => rfl⟩
  | shutdownRequested reason => exact ⟨.shutdownRequested, rfl, fun _ => rfl⟩
  | app event => exact h.elim

/-- Nobody takes the key of a lifecycle event away from it. -/
theorem eventFor_fields (h : e.IsLifecycle) (requests : List (EventKey × Constructor))
    (extra : List Argument) :
    (lifecycle.after requests).eventFor e.key ⟨e.fieldArguments ++ extra⟩ = .ok e := by
  obtain ⟨make, hfind, hmake⟩ := lifecycle_find? h
  have hbound : lifecycle.contains e.key = true := by rw [contains, hfind, Option.isSome_some]
  refine (sound_lifecycle.after requests).eventFor_ok_iff.2 ⟨make, ?_, hmake extra, rfl⟩
  rw [sound_lifecycle.find?_later hbound, hfind]

end EventCatalogue

/-! ### What is built and what is not -/

namespace Bus

variable {cast : Cast} {bus : BusId} {event : Event} {targets : Option TargetSet}

/-- What is built is published as if it had been published at once. -/
theorem dispatch_of_ok {key : EventKey} {as : Arguments}
    (h : (cast.catalogue bus).eventFor key as = .ok event) :
    (dispatch cast bus key as targets : Program A _) =
      Except.ok <$> publish cast bus event targets := by
  rw [dispatch, h]
  rfl

/-- What cannot be built comes to its failure and does nothing. -/
theorem dispatch_of_error {key : EventKey} {as : Arguments} {f : DispatchFailure}
    (h : (cast.catalogue bus).eventFor key as = .error f) :
    (dispatch cast bus key as targets : Program A _) = pure (.error f) := by
  rw [dispatch, h]

end Bus

/-- **Dispatching by key is publishing the value.**  A lifecycle event that is dispatched by its key,
with its fields and anything after them, is published as it is, whatever else the catalogue has been
asked to bind: the listeners that it is meant for are called with that event and its priority, and where
what comes of a call depends on who is called with what, the same is answered.  What cannot be built
comes to its failure at once, wherever it is dispatched: nobody is called, and no bus is asked for. -/
theorem dispatch_is_publication (cast : Cast) (bus : BusId) (targets : Option TargetSet) :
    (∀ requests e extra, cast.catalogue bus = EventCatalogue.lifecycle.after requests →
      e.IsLifecycle →
      (Bus.dispatch cast bus e.key ⟨e.fieldArguments ++ extra⟩ targets : Program A _) =
        Except.ok <$> Bus.publish cast bus e targets ∧
      ∀ set tr tr' r d,
        Program.Run (Bus.dispatch (A := A) cast bus e.key ⟨e.fieldArguments ++ extra⟩ targets) tr r →
        Program.Run (Bus.publish (A := A) cast bus e targets) tr' d →
        listenersRead tr = some set → listenersRead tr' = some set →
        (handedIn tr).map Prod.fst =
          (set.filter (Bus.isMeant cast targets)).map (fun l => (l, e, e.priority)) ∧
        (handedIn tr').map Prod.fst =
          (set.filter (Bus.isMeant cast targets)).map (fun l => (l, e, e.priority)) ∧
        ∀ fate : ListenerId × Event × Priority → Outcome,
          (∀ p ∈ handedIn tr, p.2 = fate p.1) → (∀ p ∈ handedIn tr', p.2 = fate p.1) →
          r = .ok d) ∧
    ∀ key as f, (cast.catalogue bus).eventFor key as = .error f →
      (Bus.dispatch cast bus key as targets : Program A _) = pure (.error f) ∧
      ∀ tr r, Program.Run (Bus.dispatch (A := A) cast bus key as targets) tr r →
        tr = [] ∧ r = .error f := by
  refine ⟨fun requests e extra hcatalogue hown => ?_, fun key as f hf => ?_⟩
  · have hbuilt : (cast.catalogue bus).eventFor e.key ⟨e.fieldArguments ++ extra⟩ = .ok e := by
      rw [hcatalogue]
      exact EventCatalogue.eventFor_fields hown requests extra
    refine ⟨Bus.dispatch_of_ok hbuilt, fun set tr tr' r d hrun hrun' hset hset' => ?_⟩
    rw [Bus.dispatch_of_ok hbuilt] at hrun
    obtain ⟨first, d₁, rest, rfl, hpublish, hdone⟩ := Program.run_bind_iff.1 hrun
    obtain ⟨rfl, rfl⟩ := Program.run_pure_iff.1 hdone
    rw [List.append_nil] at hset ⊢
    obtain ⟨set₁, ⟨hset₁, -⟩, hhanded, hd⟩ := Bus.run_publish hpublish
    obtain ⟨set₂, ⟨hset₂, -⟩, hhanded', hd'⟩ := Bus.run_publish hrun'
    obtain rfl : set = set₁ := Option.some.inj (hset.symm.trans hset₁)
    obtain rfl : set = set₂ := Option.some.inj (hset'.symm.trans hset₂)
    refine ⟨hhanded, hhanded', fun fate hfate hfate' => ?_⟩
    have hsame : handedIn first = handedIn tr' := by
      rw [handedIn_eq_map hfate, handedIn_eq_map hfate', hhanded, hhanded']
    exact congrArg Except.ok (by rw [hd, hd', hsame])
  · have hdispatch : (Bus.dispatch cast bus key as targets : Program A _) = pure (.error f) :=
      Bus.dispatch_of_error hf
    refine ⟨hdispatch, fun tr r hrun => ?_⟩
    rw [hdispatch] at hrun
    exact Program.run_pure_iff.1 hrun

/-- Somebody has asked for the key of a lifecycle event, and somebody for an alias. -/
def Cast.booked : Cast :=
  { Cast.sample with
    catalogue := fun _ => EventCatalogue.lifecycle.after
      [(Event.moduleFaultedKey, .shutdownRequested), (⟨"test.alias"⟩, .shutdownRequested)] }

/-- A module has failed, which ended the launch. -/
def Event.fault : Event := .moduleFaulted "database" .launch "no route" true

/-- Of the listeners 2 and 3 the second panics. -/
def Event.fault.answers : Answerer .bare := fun _ op =>
  match op with
  | .enclosing _ => some none
  | .beginDelivery _ => some [2, 3]
  | .call (.onEvent 3 _) _ => some (.error (.panicked "boom"))
  | .call .. => some (.ok ())
  | .record _ | .endDelivery => some ()
  | _ => none

/-- The event is dispatched with one argument too many. -/
def Event.fault.dispatched : Program .bare (Except DispatchFailure Delivery) :=
  Bus.dispatch .booked 0 fault.key ⟨fault.fieldArguments ++ [⟨.unit, ()⟩]⟩ none

/-- Both listeners are called with the event, and what is answered is what publishing it answers; under
the alias nothing can be built. -/
theorem dispatch_is_publication_booked :
    Event.fault.IsLifecycle ∧
    (∃ tr r, Event.fault.dispatched.play Event.fault.answers [] = (tr, some r) ∧
      (handedIn tr).map Prod.fst = [(2, .fault, .high), (3, .fault, .high)] ∧
      r = .ok ⟨1, [⟨"io", .panicked "boom"⟩]⟩) ∧
    (Bus.dispatch .booked 0 ⟨"test.alias"⟩ ⟨[⟨.sharedStr, "done"⟩]⟩ none : Program .bare _) =
      pure (.error (.keyedOtherwise ⟨"test.alias"⟩ (.shutdownRequested "done"))) := by
  obtain ⟨hbuilt, hfailed⟩ := dispatch_is_publication (A := .bare) .booked 0 none
  obtain ⟨-, hruns⟩ := hbuilt _ .fault [⟨.unit, ()⟩] rfl trivial
  have hdispatched : Event.fault.dispatched.play Event.fault.answers [] = (_, some _) := rfl
  have hpublished : (Bus.publish .booked 0 .fault none).play Event.fault.answers [] = (_, some _) := rfl
  obtain ⟨hhanded, -, hanswer⟩ := hruns [2, 3] _ _ _ _ (Program.run_of_play hdispatched)
    (Program.run_of_play hpublished) rfl rfl
  refine ⟨trivial, ⟨_, _, hdispatched, hhanded, ?_⟩, (hfailed _ _ _ rfl).1⟩
  refine hanswer (fun h => if h.1 = 3 then .error (.panicked "boom") else .ok ()) ?_ ?_
  all_goals decide

end Orchestra
