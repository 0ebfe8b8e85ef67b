import Orchestra.Blueprint
import Orchestra.Proofs.Run
import Orchestra.Proofs.StartOrder

/-!
# What building an ensemble gives

* `Built` — an ensemble that a blueprint, put together from modules and listeners in any way, gave;
* `Ensemble.Arranged` — its modules are distinct, each slot has the entry of its module's kind, and
  no module stands before one that it is to start after;
* `Ensemble.Untouched` — it has not been launched, and no slot has been touched;
* `Built.arranged`, `Built.untouched` — every ensemble that was built is both;
* `Ensemble.sample` — a small ensemble that was built.
-/

namespace Orchestra

variable {A : Application}

/-- Module `m` is to start after module `d`, which is of another kind. -/
def Ensemble.StartsAfter (cast : Cast) (e : Ensemble) (m d : ListenerId) : Prop :=
  e.types.StartsAfter (cast.kind m) (cast.kind d)

/-- An ensemble that building gave, whatever was added to the blueprint, and whatever answers were
given on the way. -/
def Built (A : Application) (cast : Cast) (e : Ensemble) : Prop :=
  ∃ (config : Config) (types : TypeCatalogue) (modules listeners : List ListenerId) (bus : BusId)
    (tr : List (Exchange A)),
    Program.Run (((({ config, types } : Blueprint).addModules modules).addListeners
      listeners).build cast bus) tr (.ok e)

/-- The modules and listeners are distinct, and the modules stand in a proper starting order. -/
structure Ensemble.Arranged (cast : Cast) (e : Ensemble) : Prop where
  nodup_modules : e.modules.Nodup
  nodup_listeners : e.listeners.Nodup
  info : ∀ s ∈ e.slots, e.types.find? (cast.kind s.module) = some s.info
  ordered : e.modules.Pairwise fun m d => ¬ e.StartsAfter cast m d

/-- Nothing has been done with the modules. -/
structure Ensemble.Untouched (e : Ensemble) : Prop where
  launched : e.launched = false
  slots : ∀ s ∈ e.slots, s.stage = .unstarted ∧ s.active = true

/-! ### Blueprints -/

theorem nodup_addOnce {xs : List ListenerId} (h : xs.Nodup) (x : ListenerId) :
    (addOnce xs x).Nodup := by
  unfold addOnce
  split
  · exact h
  · rw [List.nodup_append]
    refine ⟨h, by simp, ?_⟩
    intro a ha b hb heq
    subst heq
    exact absurd (List.mem_singleton.1 hb ▸ ha) ‹_›

theorem nodup_foldl_addOnce (xs : List ListenerId) {ys : List ListenerId} (h : ys.Nodup) :
    (xs.foldl addOnce ys).Nodup := by
  induction xs generalizing ys with
  | nil => exact h
  | cons x rest ih => exact ih (nodup_addOnce h x)

theorem filterMap_getElem?_range {α : Type} (xs : List α) :
    (List.range xs.length).filterMap (fun i => xs[i]?) = xs := by
  induction xs with
  | nil => rfl
  | cons x rest ih =>
    rw [List.length_cons, List.range_succ_eq_map, List.filterMap_cons, List.filterMap_map]
    simpa [Function.comp_def] using ih

namespace Blueprint

/-- The ordered modules are those of the blueprint, and all of their kinds are known. -/
theorem ordered_ok {cast : Cast} {a : Blueprint} {modules : List ListenerId}
    (h : a.ordered cast = .ok modules) :
    modules.Perm a.modules ∧
      (∀ m ∈ modules, ∃ info, a.types.find? (cast.kind m) = some info) ∧
      modules.Pairwise fun m d => ¬ a.types.StartsAfter (cast.kind m) (cast.kind d) := by
  unfold ordered at h
  split at h
  · cases h
  next positions hpositions =>
    obtain ⟨hknown, hperm, hpairwise⟩ := startOrder_ok hpositions
    obtain rfl := Except.ok.inj h
    have hmodules : (positions.filterMap fun i => a.modules[i]?).Perm a.modules := by
      refine (hperm.filterMap _).trans ?_
      rw [List.length_map]
      exact .of_eq (filterMap_getElem?_range _)
    refine ⟨hmodules, ?_, ?_⟩
    · intro m hm
      exact Option.isSome_iff_exists.1 (hknown _ (List.mem_map_of_mem (hmodules.mem_iff.1 hm)))
    · rw [List.pairwise_filterMap]
      refine hpairwise.imp fun hij m hm d hd => hij _ _ ?_ ?_
      · rw [List.getElem?_map, hm, Option.map_some]
      · rw [List.getElem?_map, hd, Option.map_some]

section

variable {cast : Cast} {bus : BusId} {types : TypeCatalogue} {runtime request : TokenId} {crew : CrewId}
  {modules : List ListenerId} {slots : List Slot} {tr : List (Exchange A)}

/-- The modules get a slot each, in order, and are given the bus and the token that asks for a shutdown. -/
theorem fillSlots_run {slots' : List Slot}
    (h : Program.Run (fillSlots cast bus types runtime request crew modules slots) tr (.ok slots')) :
    ∃ added, slots' = slots ++ added ∧ added.map Slot.module = modules ∧
      ∀ s ∈ added, types.find? (cast.kind s.module) = some s.info ∧
        (s.kit.bus = bus ∧ s.kit.request = request) ∧ s.stage = .unstarted ∧ s.active = true := by
  induction modules generalizing slots tr with
  | nil =>
    obtain ⟨_, hslots⟩ := Program.run_pure_iff.1 h
    exact ⟨[], by rw [Except.ok.inj hslots, List.append_nil], rfl, by simp⟩
  | cons m rest ih =>
    rw [fillSlots] at h
    split at h
    · cases (Program.run_pure_iff.1 h).2
    next info hinfo =>
      obtain ⟨token, _, rfl, hregister⟩ := Program.run_ask_bind_iff.1 h
      obtain ⟨_, _, _, rfl, _, hrecord⟩ := Program.run_bind_iff.1 hregister
      obtain ⟨_, _, rfl, hrest⟩ := Program.run_ask_bind_iff.1 hrecord
      obtain ⟨added, rfl, hmodules, hfresh⟩ := ih hrest
      refine ⟨_ :: added, by rw [List.append_assoc, List.singleton_append], ?_, ?_⟩
      · rw [List.map_cons, hmodules]
      · intro s hs
        rcases List.mem_cons.1 hs with rfl | hs
        · exact ⟨hinfo, ⟨rfl, rfl⟩, rfl, rfl⟩
        · exact hfresh s hs

/-- That ends early only at a module of an unknown kind. -/
theorem fillSlots_error {refusal : Refusal}
    (h : Program.Run (fillSlots cast bus types runtime request crew modules slots) tr (.error refusal)) :
    ∃ m ∈ modules, types.find? (cast.kind m) = none := by
  induction modules generalizing slots tr with
  | nil => cases (Program.run_pure_iff.1 h).2
  | cons m rest ih =>
    rw [fillSlots] at h
    split at h
    next hnone => exact ⟨m, List.mem_cons_self, hnone⟩
    next info hinfo =>
      obtain ⟨token, _, rfl, hregister⟩ := Program.run_ask_bind_iff.1 h
      obtain ⟨_, _, _, rfl, _, hrecord⟩ := Program.run_bind_iff.1 hregister
      obtain ⟨_, _, rfl, hrest⟩ := Program.run_ask_bind_iff.1 hrecord
      obtain ⟨k, hk, hnone⟩ := ih hrest
      exact ⟨k, List.mem_cons_of_mem _ hk, hnone⟩

end

/-- What building gives when it gives an ensemble. -/
theorem build_run {cast : Cast} {bus : BusId} {a : Blueprint} {e : Ensemble}
    {tr : List (Exchange A)} (h : Program.Run (a.build cast bus) tr (.ok e)) :
    ∃ modules, a.ordered cast = .ok modules ∧ e.modules = modules ∧
      (∀ s ∈ e.slots, a.types.find? (cast.kind s.module) = some s.info ∧
        s.kit.bus = e.bus ∧ s.kit.request = e.request) ∧
      e.listeners = a.listeners ∧ e.types = a.types ∧ e.Untouched := by
  unfold build at h
  split at h
  · simp at h
  next modules hordered =>
    obtain ⟨runtime, _, rfl, hrequest⟩ := Program.run_ask_bind_iff.1 h
    obtain ⟨request, _, rfl, hcrew⟩ := Program.run_ask_bind_iff.1 hrequest
    obtain ⟨crew, _, rfl, hslots⟩ := Program.run_ask_bind_iff.1 hcrew
    obtain ⟨_, filled, _, rfl, hfill, hregister⟩ := Program.run_bind_iff.1 hslots
    cases filled with
    | error refusal => cases (Program.run_pure_iff.1 hregister).2
    | ok slots =>
      obtain ⟨_, _, _, rfl, _, hreturn⟩ := Program.run_bind_iff.1 hregister
      obtain ⟨_, he⟩ := Program.run_pure_iff.1 hreturn
      obtain rfl := Except.ok.inj he
      obtain ⟨added, rfl, hmodules, hfresh⟩ := fillSlots_run hfill
      exact ⟨modules, hordered, hmodules, fun s hs => ⟨(hfresh s hs).1, (hfresh s hs).2.1⟩, rfl, rfl, rfl,
        fun s hs => (hfresh s hs).2.2⟩

end Blueprint

/-! ### Ensembles that were built -/

variable {cast : Cast} {e : Ensemble}

theorem Built.arranged (h : Built A cast e) : e.Arranged cast := by
  obtain ⟨config, types, modules, listeners, bus, tr, hrun⟩ := h
  obtain ⟨_, hordered, rfl, hinfo, hlisteners, htypes, _⟩ := Blueprint.build_run hrun
  obtain ⟨hperm, -, hpairwise⟩ := Blueprint.ordered_ok hordered
  refine ⟨?_, ?_, ?_, ?_⟩
  · exact hperm.symm.nodup (nodup_foldl_addOnce modules .nil)
  · rw [hlisteners]
    exact nodup_foldl_addOnce listeners .nil
  · intro s hs
    rw [htypes]
    exact (hinfo s hs).1
  · refine hpairwise.imp fun hmd hafter => hmd ?_
    rwa [Ensemble.StartsAfter, htypes] at hafter

theorem Built.untouched (h : Built A cast e) : e.Untouched := by
  obtain ⟨_, _, _, _, _, _, hrun⟩ := h
  obtain ⟨_, _, _, _, _, _, huntouched⟩ := Blueprint.build_run hrun
  exact huntouched

/-! ### A small ensemble -/

/-- Nothing is added. -/
def Application.bare : Application where
  Job := Unit
  Effect := Empty
  Answer _ := Unit
  Memory := Unit
  perform e := e.elim

/-- Five modules, one of each core kind. -/
def Cast.sample : Cast where
  name m := (["credentials", "console", "database", "io", "gateway"][m]?).getD "listener"
  type _ := ⟨"Module"⟩
  kind m := (Kind.core[m]?).getD .io
  identity m := ⟨m⟩
  catalogue _ := .empty
  listenerLimit _ := none

/-- Four of the modules, and a listener, built with all tokens the same. -/
def Ensemble.sample : Ensemble where
  config := { closingOrder := .reverse }
  bus := 0
  types := .core
  slots := [0, 1, 3, 4].filterMap fun m =>
    (TypeCatalogue.core.find? (Cast.sample.kind m)).map fun info =>
      { module := m, info, kit := ⟨0, Cast.sample.name m, Cast.sample.kind m, ⟨m⟩, 0, 0, 0⟩ }
  listeners := [9]
  runtime := 0
  request := 0
  crew := 0

/-- Somebody who answers what is asked when an ensemble is built. -/
def Answerer.builder : Answerer A := fun _ op =>
  match op with
  | .newToken _ => some 0
  | .newCrew => some 0
  | .edit .. => some true
  | .record _ => some ()
  | _ => none

/-- The modules were added in another order than they start in. -/
theorem built_sample : Built A Cast.sample Ensemble.sample :=
  ⟨{ closingOrder := .reverse }, .core, [4, 3, 1, 0], [9], 0, _,
    @Program.run_of_play A _ .builder _ [] _ _ rfl⟩

end Orchestra
