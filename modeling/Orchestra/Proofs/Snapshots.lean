import Orchestra.Proofs.Sharing

/-!
# What tasks hold is what is registered

A delivery goes through a list of listeners that it read when it began, and a change is made to a copy
that was read before.  Both stay true to the listeners of the bus for as long as they are used.

* `Doing.edits` — the change that takes effect when a task goes on;
* `Step.listeners_of_edit`, `Step.listeners_of_none` — a step changes listeners by such a change only;
* `Sound` — the books are kept, nobody is registered twice, and what tasks hold is what is registered;
* `State.Stepped.sound` — a step keeps it so.
-/

namespace Orchestra

/-! ### Changes -/

theorem Edit.nodup_apply {e : Edit} {set : List ListenerId} (h : set.Nodup) :
    (e.apply set).Nodup := by
  cases e with
  | add l =>
    rw [Edit.apply]
    split
    · exact h
    · next hl =>
      refine List.nodup_append.2 ⟨h, List.pairwise_singleton _ _, fun a ha b hb heq => hl ?_⟩
      rwa [← List.mem_singleton.1 hb, ← heq]
  | remove l => exact h.filter _

/-- A change answers whether it made a difference. -/
theorem Edit.changes_eq (e : Edit) (set : List ListenerId) :
    e.changes set = decide (e.apply set ≠ set) := by
  cases e with
  | add l =>
    rw [Edit.changes, Edit.apply, decide_eq_decide]
    split
    · next hl => exact ⟨fun h => absurd hl h, fun h => absurd rfl h⟩
    · next hl =>
      refine ⟨fun _ heq => ?_, fun _ => hl⟩
      have hlength := congrArg List.length heq
      rw [List.length_append, List.length_singleton] at hlength
      omega
  | remove l =>
    rw [Edit.changes, Edit.apply, decide_eq_decide]
    constructor
    · intro hl heq
      have hmem : l ∈ set.filter (· ≠ l) := by rwa [heq]
      exact of_decide_eq_true (List.mem_filter.1 hmem).2 rfl
    · intro hne
      refine Decidable.byContradiction fun hl => hne (List.filter_eq_self.2 fun a ha => ?_)
      refine decide_eq_true fun heq => hl ?_
      rwa [← heq]

/-- Who is there after a change: whoever is added, and whoever was there and is not removed. -/
theorem Edit.mem_apply_iff {e : Edit} {set : List ListenerId} {l : ListenerId} :
    l ∈ e.apply set ↔ e = .add l ∨ l ∈ set ∧ e ≠ .remove l := by
  cases e with
  | add l' =>
    rw [apply]
    split
    · next hmem =>
      constructor
      · exact fun hl => .inr ⟨hl, nofun⟩
      · rintro (heq | ⟨hl, -⟩)
        · rwa [← Edit.add.inj heq]
        · exact hl
    · simp [or_comm, eq_comm]
  | remove l' =>
    rw [apply, List.mem_filter, decide_eq_true_iff, ne_comm]
    simp

namespace Machine

variable {A : Application}

/-! ### The listeners of the buses -/

/-- The listeners of a bus. -/
def Buses.listeners (g : Buses) (b : BusId) : Option (List ListenerId) := (g b).map BusState.listeners

namespace Buses

variable (g : Buses) (b : BusId)

@[simp] theorem listeners_onLock (f : Lock → Lock) : (g.onLock b f).listeners = g.listeners := by
  funext c
  by_cases hc : c = b
  · subst hc
    rw [listeners, listeners, onLock, Function.update_self, Option.map_map]
    rfl
  · rw [listeners, listeners, onLock, Function.update_of_ne hc]

@[simp] theorem listeners_release (c : Claim) : (g.release b c).listeners = g.listeners :=
  listeners_onLock g b _

@[simp] theorem listeners_withdraw (c : Option (BusId × Claim)) :
    (g.withdraw c).listeners = g.listeners := by
  cases c with
  | none => rfl
  | some bc => exact listeners_onLock g bc.1 fun l => (l.withdraw bc.2).1

@[simp] theorem listeners_endPasses (t : TaskId) (ps : List Pass) :
    (g.endPasses t ps).listeners = g.listeners := by
  induction ps generalizing g with
  | nil => rfl
  | cons p rest ih => exact (ih _).trans (listeners_release g p.bus _)

theorem listeners_setListeners_self (set : List ListenerId) :
    (g.setListeners b set).listeners b = (g.listeners b).map fun _ => set := by
  rw [listeners, listeners, setListeners, Function.update_self, Option.map_map, Option.map_map]
  rfl

theorem listeners_setListeners_of_ne {c : BusId} (hc : c ≠ b) (set : List ListenerId) :
    (g.setListeners b set).listeners c = g.listeners c := by
  rw [listeners, listeners, setListeners, Function.update_of_ne hc]

end Buses

/-- The change to a bus that takes effect when a task goes on. -/
def Doing.edits (b : BusId) : Doing A → Doing A → Option Edit
  | waiting (.replacing b' e _ _), running _ => if b' = b then some e else none
  | _, _ => none

section Steps

variable {w : World A} {t : TaskId} {b : BusId} {g g' : Buses} {k k' : Core A} {e : Edit}

theorem Doing.edits_eq_some {doing doing' : Doing A} (h : doing.edits b doing' = some e) :
    ∃ copy next p, doing = .waiting (.replacing b e copy next) ∧ doing' = .running p := by
  unfold Doing.edits at h
  split at h
  · next b' e' copy next p =>
    split at h
    · next hb =>
      cases h
      subst hb
      exact ⟨copy, next, p, rfl, rfl⟩
    · cases h
  · cases h

theorem Doing.edits_ended (doing : Doing A) : doing.edits b .ended = none := by
  cases h : doing.edits b .ended with
  | none => rfl
  | some e =>
    obtain ⟨copy, next, p, -, hended⟩ := Doing.edits_eq_some h
    cases hended

/-- A change that takes effect is made to the copy that the task has read, and is answered. -/
theorem Step.listeners_of_edit (hstep : Step w t g k g' k')
    (h : k.doing.edits b k'.doing = some e) :
    ∃ copy next, k.doing = .waiting (.replacing b e copy next) ∧
      k' = ⟨.running (next (e.changes copy)), k.calls, k.passes⟩ ∧
      g'.listeners b = (g.listeners b).map fun _ => e.apply copy := by
  obtain ⟨copy, next, p, hdoing, hdoing'⟩ := Doing.edits_eq_some h
  refine ⟨copy, next, hdoing, ?_⟩
  cases hstep with
  | goes hclaim =>
    cases hdoing
    cases hclaim
  | replaces =>
    cases hdoing
    rw [Buses.listeners_release]
    exact ⟨rfl, Buses.listeners_setListeners_self g b _⟩
  | leaves _ _ hreplacing => exact absurd hdoing (hreplacing _ _ _ _)
  | finishes => cases hdoing'
  | _ => cases hdoing

/-- Nothing else changes the listeners. -/
theorem Step.listeners_of_none (hstep : Step w t g k g' k')
    (h : k.doing.edits b k'.doing = none) : g'.listeners b = g.listeners b := by
  cases hstep with
  | @replaces b' e copy next calls passes =>
    have hb : b ≠ b' := by
      intro heq
      subst heq
      rw [Doing.edits, if_pos rfl] at h
      cases h
    rw [Buses.listeners_release, Buses.listeners_setListeners_of_ne g b' hb]
  | goes => rfl
  | records => rfl
  | looks => rfl
  | enters => rfl
  | begins => rfl
  | copies => rfl
  | endsNothing => rfl
  | wantsToBegin => rw [Buses.listeners_onLock]
  | wantsToRead => rw [Buses.listeners_onLock]
  | wantsToEdit => rw [Buses.listeners_onLock]
  | reads => rw [Buses.listeners_release]
  | ends => rw [Buses.listeners_release]
  | leaves => rw [Buses.listeners_endPasses, Buses.listeners_withdraw]
  | finishes => rw [Buses.listeners_endPasses, Buses.listeners_withdraw]

end Steps

/-! ### What tasks hold -/

/-- What a task holds is what is registered. -/
structure Core.Current (k : Core A) (g : Buses) : Prop where
  passes : ∀ p ∈ k.passes, g.listeners p.bus = some p.set
  copy : ∀ b e copy next, k.doing = .waiting (.replacing b e copy next) →
    g.listeners b = some copy

/-- A call does not reach beyond the deliveries around it, and a task that has ended holds nothing. -/
structure Core.Neat (k : Core A) : Prop where
  nested : (k.calls.map Prod.fst).Pairwise (· ≥ ·)
  within : ∀ f ∈ k.calls, f.1 ≤ k.passes.length
  ended : k.doing = .ended → k.calls = [] ∧ k.passes = []

/-- The tasks that have been started. -/
abbrev Cores (A : Application) := TaskId → Option (Core A)

/-- How often a claim on a bus is in use. -/
def heldIn (cores : Cores A) (b : BusId) (c : Claim) : Nat :=
  ((cores c.task).map fun k => k.held b c.access).getD 0

/-- How often a claim on a bus is waited for. -/
def wantedIn (cores : Cores A) (b : BusId) (c : Claim) : Nat :=
  ((cores c.task).map fun k => k.wanted b c.access).getD 0

/-- **The invariant of the buses**: their locks have the books of all claims, nobody is registered
twice, and what tasks hold is what is registered. -/
structure Sound (g : Buses) (cores : Cores A) : Prop where
  kept : ∀ b, Kept b g (heldIn cores b) (wantedIn cores b)
  nodup : ∀ b set, g.listeners b = some set → set.Nodup
  current : ∀ u k, cores u = some k → k.Current g
  neat : ∀ u k, cores u = some k → k.Neat

section Steps

variable {w : World A} {t : TaskId} {b : BusId} {g g' : Buses} {k k' : Core A}

/-- A program that has only just begun holds nothing. -/
theorem Core.current_begun (p : Program A Outcome) (calls : Calls A)
    (g : Buses) : (⟨.running p, calls, []⟩ : Core A).Current g := by
  constructor
  · intro q hq
    cases hq
  · intro b e copy next hdoing
    cases hdoing

theorem Core.current_ended (g : Buses) : (⟨.ended, [], []⟩ : Core A).Current g := by
  constructor
  · intro q hq
    cases hq
  · intro b e copy next hdoing
    cases hdoing

theorem Core.neat_begun (p : Program A Outcome) : (⟨.running p, [], []⟩ : Core A).Neat := by
  constructor
  · exact List.Pairwise.nil
  · intro f hf
    cases hf
  · intro hended
    cases hended

theorem Core.neat_ended : (⟨.ended, [], []⟩ : Core A).Neat := by
  constructor
  · exact List.Pairwise.nil
  · intro f hf
    cases hf
  · intro _
    exact ⟨rfl, rfl⟩

theorem Core.Neat.depthOf_le (h : k.Neat) : depthOf k.calls ≤ k.passes.length := by
  cases hcalls : k.calls with
  | nil => exact Nat.zero_le _
  | cons f rest => exact h.within f (by rw [hcalls]; exact List.mem_cons_self)

theorem Core.Neat.of_doing {doing doing' : Doing A} {calls : Calls A}
    {passes : List Pass} (h : Core.Neat ⟨doing, calls, passes⟩) (hended : doing' ≠ .ended) :
    Core.Neat ⟨doing', calls, passes⟩ :=
  ⟨h.nested, h.within, fun heq => absurd heq hended⟩

theorem Step.neat (hstep : Step w t g k g' k') (h : k.Neat) : k'.Neat := by
  cases hstep with
  | goes _ _ _ hended => exact h.of_doing hended
  | records => exact h.of_doing nofun
  | looks => exact h.of_doing nofun
  | wantsToBegin => exact h.of_doing nofun
  | wantsToRead => exact h.of_doing nofun
  | wantsToEdit => exact h.of_doing nofun
  | reads => exact h.of_doing nofun
  | copies => exact h.of_doing nofun
  | replaces => exact h.of_doing nofun
  | endsNothing => exact h.of_doing nofun
  | finishes => exact Core.neat_ended
  | enters =>
    refine ⟨List.pairwise_cons.2 ⟨fun depth hdepth => ?_, h.nested⟩, fun f hf => ?_, nofun⟩
    · obtain ⟨f, hf, rfl⟩ := List.mem_map.1 hdepth
      exact h.within f hf
    · rcases List.mem_cons.1 hf with rfl | hf
      · exact Nat.le_refl _
      · exact h.within f hf
  | begins => exact ⟨h.nested, fun f hf => Nat.le_succ_of_le (h.within f hf), nofun⟩
  | @ends next p calls passes hdepth =>
    refine ⟨h.nested, fun f hf => Nat.le_trans ?_ hdepth, nofun⟩
    -- The innermost call reaches furthest.
    cases hf with
    | head => exact Nat.le_refl _
    | tail f₀ hf => exact List.rel_of_pairwise_cons h.nested (List.mem_map_of_mem hf)
  | @leaves doing depth caller inner rest passes o =>
    have hnested := h.nested
    rw [List.map_append, List.map_cons] at hnested
    obtain ⟨hdepth, hrest⟩ := List.pairwise_cons.1 (List.pairwise_append.1 hnested).2.1
    refine ⟨hrest, fun f hf => ?_, nofun⟩
    have hwithin := h.within (depth, caller) (List.mem_append_right _ List.mem_cons_self)
    have hf' := hdepth f.1 (List.mem_map_of_mem hf)
    simp only [List.length_drop] at hwithin ⊢
    omega

theorem Core.Current.of_listeners (h : k.Current g) (hlisteners : g'.listeners = g.listeners)
    (hpasses : ∀ p ∈ k'.passes, p ∈ k.passes)
    (hdoing : ∀ b e copy next, k'.doing ≠ .waiting (.replacing b e copy next)) : k'.Current g' where
  passes p hp := by rw [hlisteners, h.passes p (hpasses p hp)]
  copy b e copy next heq := absurd heq (hdoing b e copy next)

theorem Buses.listeners_of_bus {bs : BusState} (h : g b = some bs) :
    g.listeners b = some bs.listeners := by
  rw [Buses.listeners, h]
  rfl

theorem Step.current (hstep : Step w t g k g' k') (h : k.Current g)
    (halone : ∀ b e copy next, k.doing = .waiting (.replacing b e copy next) →
      ∀ p ∈ k.passes, p.bus ≠ b) : k'.Current g' := by
  cases hstep with
  | goes _ _ hclaim =>
    refine h.of_listeners rfl (fun _ hp => hp) fun b e copy next heq => ?_
    cases heq
    cases hclaim
  | records => exact h.of_listeners rfl (fun _ hp => hp) nofun
  | looks => exact h.of_listeners rfl (fun _ hp => hp) nofun
  | enters => exact h.of_listeners rfl (fun _ hp => hp) nofun
  | wantsToBegin => exact h.of_listeners (Buses.listeners_onLock _ _ _) (fun _ hp => hp) nofun
  | wantsToRead => exact h.of_listeners (Buses.listeners_onLock _ _ _) (fun _ hp => hp) nofun
  | wantsToEdit => exact h.of_listeners (Buses.listeners_onLock _ _ _) (fun _ hp => hp) nofun
  | begins hbs =>
    refine ⟨fun p hp => ?_, nofun⟩
    rcases List.mem_cons.1 hp with rfl | hp
    · exact Buses.listeners_of_bus hbs
    · exact h.passes p hp
  | reads => exact h.of_listeners (Buses.listeners_release _ _ _) (fun _ hp => hp) nofun
  | copies hbs =>
    refine ⟨h.passes, fun b e copy next heq => ?_⟩
    cases heq
    exact Buses.listeners_of_bus hbs
  | replaces =>
    refine ⟨fun p hp => ?_, nofun⟩
    rw [Buses.listeners_release,
      Buses.listeners_setListeners_of_ne _ _ (halone _ _ _ _ rfl p hp), h.passes p hp]
  | ends =>
    exact h.of_listeners (Buses.listeners_release _ _ _) (fun _ hp => List.mem_cons_of_mem _ hp) nofun
  | endsNothing => exact h.of_listeners rfl (fun _ hp => hp) nofun
  | leaves =>
    refine h.of_listeners ?_ (fun _ hp => List.mem_of_mem_drop hp) nofun
    rw [Buses.listeners_endPasses, Buses.listeners_withdraw]
  | finishes =>
    refine h.of_listeners ?_ (fun _ hp => nomatch hp) nofun
    rw [Buses.listeners_endPasses, Buses.listeners_withdraw]

end Steps

/-! ### The invariant -/

section Invariant

variable {w : World A} {t u : TaskId} {b : BusId} {g g' : Buses} {k k' : Core A} {c : Claim}
  {cores cores' : Cores A}

theorem heldIn_of_core {a : Access} (h : cores t = some k) : heldIn cores b ⟨t, a⟩ = k.held b a := by
  rw [heldIn, h]
  rfl

/-- How often a claim counts, by what it counts for its task. -/
def countIn (f : Core A → Access → Nat) (cores : Cores A) (c : Claim) : Nat :=
  ((cores c.task).map fun k => f k c.access).getD 0

theorem countIn_eq_charge (f : Core A → Access → Nat) (h : cores t = some k) :
    countIn f cores = charge t (f k) (countIn f cores) := by
  funext c
  rw [charge]
  split
  · next htask =>
    rw [countIn, htask, h]
    rfl
  · rfl

theorem heldIn_eq_charge (h : cores t = some k) :
    heldIn cores b = charge t (k.held b) (heldIn cores b) :=
  countIn_eq_charge (Core.held b) h

theorem wantedIn_eq_charge (h : cores t = some k) :
    wantedIn cores b = charge t (k.wanted b) (wantedIn cores b) :=
  countIn_eq_charge (Core.wanted b) h

/-- The other tasks are as they were, or have been started. -/
def Cores.Spares (cores : Cores A) (t : TaskId) (cores' : Cores A) : Prop :=
  ∀ u, u ≠ t → cores' u = cores u ∨ cores u = none ∧ ∃ p, cores' u = some ⟨.running p, [], []⟩

theorem Cores.Spares.countIn (h : cores.Spares t cores') (h' : cores' t = some k')
    (f : Core A → Access → Nat) (hf : ∀ p a, f ⟨.running p, [], []⟩ a = 0) :
    countIn f cores' = charge t (f k') (countIn f cores) := by
  rw [countIn_eq_charge f h']
  funext c
  rw [charge, charge]
  split
  · rfl
  · next htask =>
    rw [Machine.countIn, Machine.countIn]
    rcases h c.task htask with hsame | ⟨hnone, p, hnew⟩
    · rw [hsame]
    · rw [hnone, hnew, Option.map_some, hf]
      rfl

theorem Cores.Spares.heldIn (h : cores.Spares t cores') (h' : cores' t = some k') :
    heldIn cores' b = charge t (k'.held b) (heldIn cores b) :=
  h.countIn h' (Core.held b) fun _ _ => rfl

theorem Cores.Spares.wantedIn (h : cores.Spares t cores') (h' : cores' t = some k') :
    wantedIn cores' b = charge t (k'.wanted b) (wantedIn cores b) :=
  h.countIn h' (Core.wanted b) fun _ _ => rfl

namespace Sound

/-- Whoever has a copy of the listeners to change uses the only claim on the bus. -/
theorem alone (h : Sound g cores) (hk : cores t = some k) {e : Edit} {copy : List ListenerId}
    {next : Bool → Program A Outcome} (hdoing : k.doing = .waiting (.replacing b e copy next))
    (hc : 0 < heldIn cores b c) : c = ⟨t, .write⟩ := by
  obtain ⟨bs, hbs, -⟩ := Option.map_eq_some_iff.1 ((h.current t k hk).copy b e copy next hdoing)
  refine (h.kept b bs hbs).eq_of_write ?_ rfl hc
  rw [heldIn_of_core hk, Core.held, hdoing, Doing.held, one_self]
  omega

theorem heldIn_pos_of_pass (hk : cores u = some k) {p : Pass} (hp : p ∈ k.passes) :
    0 < heldIn cores p.bus ⟨u, .read⟩ := by
  have hpos := heldBy_pos hp rfl
  rw [heldIn_of_core hk, Core.held]
  omega

theorem heldIn_pos_of_copy (hk : cores u = some k) {e : Edit} {copy : List ListenerId}
    {next : Bool → Program A Outcome} (hdoing : k.doing = .waiting (.replacing b e copy next)) :
    0 < heldIn cores b ⟨u, .write⟩ := by
  rw [heldIn_of_core hk, Core.held, hdoing, Doing.held, one_self]
  omega

/-- What another task holds outlasts the step. -/
theorem current_of_ne (h : Sound g cores) (hk : cores t = some k) (hstep : Step w t g k g' k')
    (hu : u ≠ t) {ku : Core A} (hku : cores u = some ku) : ku.Current g' := by
  have hcurrent := h.current u ku hku
  have hsame : ∀ b a, 0 < heldIn cores b ⟨u, a⟩ → g'.listeners b = g.listeners b := by
    intro b a hpos
    cases hedit : k.doing.edits b k'.doing with
    | none => exact hstep.listeners_of_none hedit
    | some e =>
      obtain ⟨copy, next, hdoing, -⟩ := hstep.listeners_of_edit hedit
      have hclaim := h.alone hk hdoing hpos
      exact absurd (congrArg Claim.task hclaim) hu
  refine ⟨fun p hp => ?_, fun b e copy next hdoing => ?_⟩
  · rw [hsame p.bus .read (heldIn_pos_of_pass hku hp), hcurrent.passes p hp]
  · rw [hsame b .write (heldIn_pos_of_copy hku hdoing), hcurrent.copy b e copy next hdoing]

/-- **A step keeps the invariant.** -/
theorem step (h : Sound g cores) (hk : cores t = some k) (hk' : cores' t = some k')
    (hstep : Step w t g k g' k') (hothers : cores.Spares t cores') : Sound g' cores' where
  kept b := by
    rw [hothers.heldIn hk', hothers.wantedIn hk']
    refine hstep.kept ?_
    rw [KeptFor, ← heldIn_eq_charge hk, ← wantedIn_eq_charge hk]
    exact h.kept b
  nodup b set hset := by
    cases hedit : k.doing.edits b k'.doing with
    | none =>
      rw [hstep.listeners_of_none hedit] at hset
      exact h.nodup b set hset
    | some e =>
      obtain ⟨copy, next, hdoing, -, hlisteners⟩ := hstep.listeners_of_edit hedit
      have hcopy := (h.current t k hk).copy b e copy next hdoing
      rw [hlisteners, hcopy] at hset
      cases hset
      exact Edit.nodup_apply (h.nodup b copy hcopy)
  current u ku hku := by
    by_cases hu : u = t
    · subst hu
      obtain rfl := Option.some.inj (hk'.symm.trans hku)
      refine hstep.current (h.current u k hk) fun b e copy next hdoing p hp hb => ?_
      subst hb
      have hclaim := h.alone hk hdoing (heldIn_pos_of_pass hk hp)
      cases congrArg Claim.access hclaim
    · rcases hothers u hu with hsame | ⟨-, p, hnew⟩
      · exact h.current_of_ne hk hstep hu (hsame ▸ hku)
      · obtain rfl := Option.some.inj (hnew.symm.trans hku)
        exact Core.current_begun p [] g'
  neat u ku hku := by
    by_cases hu : u = t
    · subst hu
      obtain rfl := Option.some.inj (hk'.symm.trans hku)
      exact hstep.neat (h.neat u k hk)
    · rcases hothers u hu with hsame | ⟨-, p, hnew⟩
      · exact h.neat u ku (hsame ▸ hku)
      · obtain rfl := Option.some.inj (hnew.symm.trans hku)
        exact Core.neat_begun p

end Sound

end Invariant

end Machine

end Orchestra
