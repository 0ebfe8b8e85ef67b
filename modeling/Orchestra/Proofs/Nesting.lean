import Orchestra.Proofs.Etiquette
import Orchestra.Proofs.Execution

/-!
# Deliveries within calls within deliveries

Where everybody uses buses through their functions, each call has at most one delivery of its own in
progress, and all deliveries of a task are on different buses.

* `NoneOn` — none of some deliveries is on a bus;
* `Suits` — the deliveries that a program of a standing has begun from its call;
* `Stacked` — the calls around a program, each with the deliveries it was made from;
* `Core.Orderly` — all of this, for one task; `Step.orderly` — a step keeps it;
* `Execution.IsOrderly`, `Execution.orderly` — it holds throughout an execution.
-/

namespace Orchestra.Machine

variable {A : Application}

/-! ### Orderly tasks -/

/-- None of the deliveries is on a bus. -/
def NoneOn (b : BusId) (passes : List Pass) : Prop := ∀ p ∈ passes, p.bus ≠ b

/-- Of all deliveries of a task, those that a program of a standing has begun from its call. -/
def Suits : Standing → List Pass → List Pass → Prop
  | .free, own, _ => own = []
  | .asking b, own, passes => own = [] ∧ NoneOn b passes
  | .delivering, own, _ => ∃ p, own = [p]

/-- What a task is doing obeys, from a standing on. -/
def Doing.Obeys : Doing A → Standing → Prop
  | running p, s => p.Obeys s
  | waiting (.beginning b next), s => s = .asking b ∧ ∀ set, (next set).Obeys .delivering
  | waiting (.reading b next), s => s = .asking b ∧ ∀ set, (next set).Obeys .free
  | waiting w, s => ∀ p, w.MayGoOn p → p.Obeys s
  | ended, _ => True

/-- The calls around a program, each made when certain deliveries were in progress, to which the caller
will come back. -/
inductive Stacked : Calls A → List Pass → Prop where
  | nil : Stacked [] []
  | cons {caller : Outcome → Program A Outcome} {calls : Calls A} {own outer : List Pass}
      (s : Standing) : Suits s own (own ++ outer) → (∀ o, (caller o).Obeys s) →
      Stacked calls outer → Stacked (((own ++ outer).length, caller) :: calls) (own ++ outer)

/-- A task whose program and callers obey, and whose deliveries are on different buses. -/
structure Core.Orderly (k : Core A) : Prop where
  nodup : (k.passes.map Pass.bus).Nodup
  stacked : ∃ s own outer, k.passes = own ++ outer ∧ Suits s own k.passes ∧ k.doing.Obeys s ∧
    Stacked k.calls outer

theorem Core.orderly_begun {p : Program A Outcome} (h : p.Obeys .free) :
    (⟨.running p, [], []⟩ : Core A).Orderly :=
  ⟨List.nodup_nil, .free, [], [], rfl, rfl, h, .nil⟩

theorem Core.orderly_ended : (⟨.ended, [], []⟩ : Core A).Orderly :=
  ⟨List.nodup_nil, .free, [], [], rfl, rfl, trivial, .nil⟩

theorem Stacked.depthOf_eq {calls : Calls A} {outer : List Pass} (h : Stacked calls outer) :
    depthOf calls = outer.length := by
  cases h <;> rfl

/-- A call that is left: the caller finds the deliveries it was made from. -/
theorem Stacked.leave {inner rest : Calls A} {depth : Nat} {caller : Outcome → Program A Outcome}
    {outer : List Pass} (h : Stacked (inner ++ (depth, caller) :: rest) outer) (own : List Pass) :
    ∃ s own' outer', (own ++ outer).drop ((own ++ outer).length - depth) = own' ++ outer' ∧
      Suits s own' (own' ++ outer') ∧ (∀ o, (caller o).Obeys s) ∧ Stacked rest outer' := by
  induction inner generalizing own outer with
  | nil =>
    cases h with
    | @cons _ _ own₁ outer₁ s hsuits hcaller hrest =>
      refine ⟨s, own₁, outer₁, ?_, hsuits, hcaller, hrest⟩
      rw [List.length_append, Nat.add_sub_cancel, List.drop_left]
  | cons f inner ih =>
    cases h with
    | @cons _ _ own₁ outer₁ s hsuits hcaller hrest =>
      have hleft := ih hrest (own ++ own₁)
      rwa [List.append_assoc] at hleft

section Steps

variable {w : World A} {t : TaskId} {g g' : Buses} {k k' : Core A}

/-- A program that goes on after something that has nothing to do with calls and buses. -/
theorem Doing.Obeys.mayGoOn {doing : Doing A} {s : Standing} (h : doing.Obeys s)
    (hclaim : doing.claim? t = none)
    (hop : ∀ op next, doing = .running (.perform op next) → op.IsApart) {p : Program A Outcome}
    (hp : doing.MayGoOn p) : p.Obeys s := by
  cases doing with
  | running q =>
    cases q with
    | done o => exact hp.elim
    | perform op next =>
      obtain ⟨x, rfl⟩ := hp
      have hapart := hop op next rfl
      exact Program.Obeys.next h (by cases op <;> first | exact id | exact hapart.elim) x
  | waiting wait => cases wait <;> first | exact h p hp | cases hclaim
  | ended => exact hp.elim

/-- **A step keeps a task orderly.** -/
theorem Step.orderly (hstep : Step w t g k g' k') (hw : w.IsOrderly) (h : k.Orderly) :
    k'.Orderly := by
  obtain ⟨hnodup, s, own, outer, hpasses, hsuits, hobeys, hstacked⟩ := h
  cases hstep with
  | @goes doing doing' calls passes hclaim hended hclaim' hended' hop hnext =>
    refine ⟨hnodup, s, own, outer, hpasses, hsuits, ?_, hstacked⟩
    cases doing' with
    | running p => exact hobeys.mayGoOn hclaim hop (hnext p rfl)
    | waiting wait =>
      cases wait <;> first | exact fun p hp => hobeys.mayGoOn hclaim hop (hnext p hp) | cases hclaim'
    | ended => trivial
  | records =>
    exact ⟨hnodup, s, own, outer, hpasses, hsuits, Program.Obeys.next hobeys id (), hstacked⟩
  | @looks b next calls passes =>
    obtain ⟨rfl, hnext⟩ := hobeys.of_enclosing
    refine ⟨hnodup, _, own, outer, hpasses, ?_, hnext _, hstacked⟩
    cases hfind : passes.find? fun p => p.bus = b with
    | some p => exact hsuits
    | none =>
      refine ⟨hsuits, fun p hp heq => ?_⟩
      exact List.find?_eq_none.1 hfind p hp (decide_eq_true heq)
  | @enters callee limit next calls passes =>
    obtain rfl : passes = own ++ outer := hpasses
    refine ⟨hnodup, .free, [], own ++ outer, rfl, rfl, hw.body callee, ?_⟩
    exact .cons s hsuits (Program.Obeys.next hobeys id) hstacked
  | wantsToBegin =>
    exact ⟨hnodup, s, own, outer, hpasses, hsuits, hobeys.of_beginDelivery, hstacked⟩
  | wantsToRead =>
    exact ⟨hnodup, s, own, outer, hpasses, hsuits, hobeys.of_listeners, hstacked⟩
  | wantsToEdit =>
    refine ⟨hnodup, s, own, outer, hpasses, hsuits, fun p hp => ?_, hstacked⟩
    obtain ⟨changed, rfl⟩ := hp
    exact Program.Obeys.next hobeys id changed
  | @begins b bs next calls passes =>
    obtain ⟨rfl, hnext⟩ := hobeys
    obtain ⟨rfl, hnone⟩ := hsuits
    obtain rfl : passes = outer := hpasses
    refine ⟨List.nodup_cons.2 ⟨fun hmem => ?_, hnodup⟩, .delivering, [⟨b, bs.listeners⟩], passes, rfl,
      ⟨_, rfl⟩, hnext bs.listeners, hstacked⟩
    obtain ⟨p, hp, hb⟩ := List.mem_map.1 hmem
    exact hnone p hp hb
  | @reads b bs next calls passes =>
    obtain ⟨rfl, hnext⟩ := hobeys
    exact ⟨hnodup, .free, own, outer, hpasses, hsuits.1, hnext bs.listeners, hstacked⟩
  | copies => exact ⟨hnodup, s, own, outer, hpasses, hsuits, hobeys, hstacked⟩
  | replaces => exact ⟨hnodup, s, own, outer, hpasses, hsuits, hobeys _ ⟨_, rfl⟩, hstacked⟩
  | @ends next p calls passes =>
    obtain ⟨rfl, hnext⟩ := hobeys.of_endDelivery
    obtain ⟨q, rfl⟩ := hsuits
    obtain ⟨rfl, rfl⟩ := List.cons.inj hpasses
    exact ⟨(List.nodup_cons.1 hnodup).2, .free, [], passes, rfl, rfl, hnext, hstacked⟩
  | @endsNothing next calls passes hnothing =>
    -- A program that has begun a delivery still has it.
    obtain ⟨rfl, hnext⟩ := hobeys.of_endDelivery
    obtain ⟨q, rfl⟩ := hsuits
    obtain rfl : passes = [q] ++ outer := hpasses
    rw [hstacked.depthOf_eq, List.length_append, List.length_singleton] at hnothing
    omega
  | @leaves doing depth caller inner rest passes o =>
    obtain rfl : passes = own ++ outer := hpasses
    obtain ⟨s', own', outer', hdrop, hsuits', hcaller, hrest⟩ := hstacked.leave own
    have hsublist := List.drop_sublist ((own ++ outer).length - depth) (own ++ outer)
    refine ⟨(hsublist.map Pass.bus).nodup hnodup, s', own', outer', hdrop, ?_, hcaller o, hrest⟩
    rwa [hdrop]
  | finishes => exact Core.orderly_ended

end Steps

/-! ### Orderly executions -/

/-- Whoever is given a program in an execution obeys, and so does everybody in its world. -/
structure Execution.IsOrderly {w : World A} (x : Execution w) : Prop where
  world : w.IsOrderly
  commissioned : ∀ n t p calls, (x.state n).core t = some ⟨.ended, [], []⟩ →
    (x.state (n + 1)).core t = some ⟨.running p, calls, []⟩ →
    p.Obeys .free ∧ ∀ f ∈ calls, ∀ o, (f.2 o).Obeys .free

namespace Execution

variable {w : World A} {x : Execution w} {t : TaskId}

theorem stacked_of_obeys {calls : Calls A} (hdepth : ∀ f ∈ calls, f.1 = 0)
    (h : ∀ f ∈ calls, ∀ o, (f.2 o).Obeys .free) : Stacked calls [] := by
  induction calls with
  | nil => exact .nil
  | cons f rest ih =>
    obtain ⟨depth, caller⟩ := f
    obtain rfl : depth = 0 := hdepth _ List.mem_cons_self
    have hrest := ih (fun f hf => hdepth f (List.mem_cons_of_mem _ hf))
      fun f hf => h f (List.mem_cons_of_mem _ hf)
    exact @Stacked.cons _ caller rest [] [] .free rfl (h _ List.mem_cons_self) hrest

/-- **Every task is orderly throughout.** -/
theorem orderly (hx : x.IsOrderly) (n : Nat) {k : Core A} (hk : (x.state n).core t = some k) :
    k.Orderly := by
  induction n generalizing k with
  | zero =>
    obtain ⟨buses, memory, hstart⟩ := x.start
    rw [hstart] at hk
    rw [State.core_start hk]
    exact Core.orderly_ended
  | succ n ih =>
    rcases x.core_cases hk with ⟨-, hsame⟩ | ⟨k₀, -, hk₀, hstep⟩ | ⟨-, job, rfl⟩ |
      ⟨hended, p, calls, rfl, hdepth⟩ | rfl
    · exact ih hsame
    · exact hstep.orderly hx.world (ih hk₀)
    · exact Core.orderly_begun (hx.world.job job)
    · obtain ⟨hp, hcalls⟩ := hx.commissioned n t p calls hended hk
      exact ⟨List.nodup_nil, .free, [], [], rfl, rfl, hp, stacked_of_obeys hdepth hcalls⟩
    · exact Core.orderly_ended

end Execution

end Orchestra.Machine
