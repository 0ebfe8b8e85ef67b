import Mathlib.Data.List.Nodup
import Orchestra.Proofs.Consistency
import Orchestra.Proofs.Enclosing

/-!
# Publishing from within a delivery

A task that is part of a delivery on a bus holds its lock already.  If it asked for it once more, it would
wait behind a writer that waits for the delivery.

* `Bus.Views` — the programs that look at the listeners, with what comes after them;
* `Execution.ReadsOnce` — a task holds the lock of a bus once, and does not ask for it;
* `Execution.Reenters`, `Execution.Peeks` — how far a delivery, or a look at the listeners, has come that
  uses the listeners of the delivery around it;
* `Execution.Asks` — how far a look at the listeners has come that asks for the lock;
* `reentrant_publishing` — within a delivery on a bus no delivery and no look at the listeners waits for its
  lock, and anywhere else they do; and what a task knows of the deliveries around it is true.
-/

namespace Orchestra

open Machine

variable {A : Application} {w : World A}

namespace Bus

variable {b : BusId}

/-- A program looks at the listeners of a bus, and then goes on with what it has seen. -/
inductive Views (b : BusId) :
    Program A Outcome → (List ListenerId → Program A Outcome) → Prop where
  | contains (l : ListenerId) (next : Bool → Program A Outcome) :
      Views b (contains b l >>= next) fun set => next (set.contains l)
  | size (next : Nat → Program A Outcome) : Views b (size b >>= next) fun set => next set.length
  | isEmpty (next : Bool → Program A Outcome) :
      Views b (isEmpty b >>= next) fun set => next set.isEmpty

theorem Views.program {p : Program A Outcome} {next : List ListenerId → Program A Outcome}
    (h : Views b p next) :
    ∃ next', p = .perform (.enclosing b) next' ∧ (∀ set, next' (some set) = next set) ∧
      next' none = .perform (.listeners b) next := by
  cases h with
  | contains l next => exact ⟨_, rfl, fun _ => rfl, rfl⟩
  | size next => exact ⟨_, rfl, fun _ => rfl, rfl⟩
  | isEmpty next => exact ⟨_, rfl, fun _ => rfl, rfl⟩

end Bus

namespace Machine

/-- A task is about to look at the listeners of a bus. -/
def Doing.awaitsView (b : BusId) : Doing A → Prop
  | running (.perform (.enclosing b') _) => b' = b
  | running (.perform (.listeners b') _) => b' = b
  | waiting (.reading b' _) => b' = b
  | _ => False

/-! ### The claims of a task that delivers -/

theorem heldBy_read (b : BusId) (ps : List Pass) : heldBy b ps .read = (ps.map Pass.bus).count b := by
  induction ps with
  | nil => rfl
  | cons p rest ih =>
    rw [heldBy_cons, ih, List.map_cons, List.count_cons, Nat.add_comm]
    by_cases hb : p.bus = b
    · rw [hb, one_self, beq_self_eq_true, if_pos rfl]
    · rw [one_of_bus_ne hb, beq_false_of_ne hb, if_neg nofun]

theorem Doing.held_read (b : BusId) (doing : Doing A) : doing.held b .read = 0 := by
  have hother : ∀ b', one b' .write b .read = 0 := one_of_access_ne (by decide) b
  cases doing with
  | waiting wait => cases wait <;> first | rfl | exact hother _
  | _ => rfl

theorem Doing.wanted_read {b : BusId} {doing : Doing A} (h : ¬ doing.WantsToRead b) :
    doing.wanted b .read = 0 := by
  have hother : ∀ b', one b' .write b .read = 0 := one_of_access_ne (by decide) b
  cases doing with
  | waiting wait =>
    cases wait with
    | beginning b' next => exact one_of_bus_ne h _ _
    | reading b' next => exact one_of_bus_ne h _ _
    | editing => exact hother _
    | _ => rfl
  | _ => rfl

namespace Execution

variable {x : Execution w} {t : TaskId} {b : BusId} {i j m n : Nat} {calls : Calls A}
  {passes : List Pass} {k : Core A}

/-- After `n` steps task `t` holds the lock of a bus to read, once, and does not ask for it. -/
def ReadsOnce (x : Execution w) (t : TaskId) (b : BusId) (n : Nat) : Prop :=
  ∃ bs, (x.state n).bus b = some bs ∧ bs.lock.holders.count ⟨t, .read⟩ = 1 ∧
    bs.lock.queue.count ⟨t, .read⟩ = 0

/-- **A task that is part of a delivery on a bus holds the lock by that delivery alone.** -/
theorem Encloses.readsOnce (hx : x.IsOrderly) (h : x.Encloses t b m n) : x.ReadsOnce t b n := by
  obtain ⟨calls, outer, hsurrounds⟩ := id h
  obtain ⟨k, hk, -⟩ := hsurrounds.atop
  have hmem := h.mem_passes hk
  have hsound := x.sound n
  obtain ⟨bs, hbs, -⟩ := Option.map_eq_some_iff.1 ((hsound.current t k hk).passes _ hmem)
  have hbooks := hsound.kept b bs hbs
  have hheld : heldIn (x.state n).core b ⟨t, .read⟩ = 1 := by
    rw [heldIn_of_core hk, Core.held, Doing.held_read, heldBy_read, Nat.zero_add]
    exact List.count_eq_one_of_mem (orderly hx n hk).nodup (List.mem_map_of_mem hmem)
  have hwanted : wantedIn (x.state n).core b ⟨t, .read⟩ = 0 := by
    rw [wantedIn, hk]
    exact Doing.wanted_read (h.not_wantsToRead hx hk)
  have htotal := hbooks.total ⟨t, .read⟩
  have hgranted := hbooks.granted ⟨t, .read⟩
  rw [hheld, hwanted] at htotal
  rw [hheld] at hgranted
  exact ⟨bs, hbs, by omega, by omega⟩

/-- Within a delivery on a bus a task that looks for one goes on with its listeners. -/
theorem Encloses.look (hx : x.IsOrderly) (h : x.Encloses t b m i)
    {next : Option (List ListenerId) → Program A Outcome} (hij : i ≤ j)
    (huncut : x.Uncut t calls.length i j)
    (hk : (x.state i).core t = some ⟨.running (.perform (.enclosing b) next), calls, passes⟩) :
    x.Rests t ⟨.running (.perform (.enclosing b) next), calls, passes⟩ i j ∨
      ∃ n, n < j ∧ x.Acts t calls.length ⟨.running (.perform (.enclosing b) next), calls, passes⟩ i n
        ⟨.running (next (some (x.listeners b m))), calls, passes⟩ := by
  have hfind : (passes.find? fun p => p.bus = b).map Pass.set = some (x.listeners b m) := by
    cases hfind : passes.find? fun p => p.bus = b with
    | none => exact absurd (decide_eq_true rfl) (List.find?_eq_none.1 hfind _ (h.mem_passes hk))
    | some p =>
      obtain rfl : p.bus = b := by simpa using List.find?_some hfind
      obtain ⟨m', h', hset⟩ := (mem_passes_iff hx hk).1 (List.mem_of_find?_eq_some hfind)
      rw [Option.map_some, hset, h'.unique hx h]
  rcases first_turn huncut hij hk with hrests | ⟨n, k', hn, hacts⟩
  · exact .inl hrests
  · obtain rfl := Step.of_enclosing hacts.goesOn hacts.depth hacts.step
    rw [hfind] at hacts
    exact .inr ⟨n, hn, hacts⟩

/-! ### Within a delivery -/

/-- How far a delivery has come after `j` steps that task `t` was up to make after `i` steps, with a set of
listeners that it has already, from within `calls` and deliveries `passes`, before going on with `next`. -/
inductive Reenters (x : Execution w) (cast : Cast) (event : Event) (targets : Option TargetSet)
    (set : List ListenerId) (t : TaskId) (calls : Calls A) (passes : List Pass)
    (next : Delivery → Program A Outcome) (i j : Nat) : Prop where
  /-- Some of those that are meant have been called. -/
  | continues (callees : List Callee) : callees <+: Bus.meant cast event targets set →
      x.Spends t calls.length passes callees i j →
      Reenters x cast event targets set t calls passes next i j
  /-- All of those that are meant have been called, and the task has gone on after `n` steps. -/
  | returns (n : Nat) (d : Delivery) : n ≤ j →
      x.Spends t calls.length passes (Bus.meant cast event targets set) i n →
      d.attempts = (Bus.meant cast event targets set).length →
      (x.state n).core t = some ⟨.running (next d), calls, passes⟩ →
      Reenters x cast event targets set t calls passes next i j

/-- How far a look at the listeners has come after `j` steps that task `t` was up to make after `i` steps,
with a set of listeners that it has already. -/
inductive Peeks (x : Execution w) (set : List ListenerId) (t : TaskId) (calls : Calls A)
    (passes : List Pass) (p : Program A Outcome) (next : List ListenerId → Program A Outcome)
    (i j : Nat) : Prop where
  /-- The task has not had its turn. -/
  | rests : x.Rests t ⟨.running p, calls, passes⟩ i j → Peeks x set t calls passes p next i j
  /-- With its turn after `n` steps the task has gone on. -/
  | sees (n : Nat) : i ≤ n → n < j → x.Rests t ⟨.running p, calls, passes⟩ i n → x.turn n = some t →
      (x.state (n + 1)).core t = some ⟨.running (next set), calls, passes⟩ →
      Peeks x set t calls passes p next i j

variable {cast : Cast} {event : Event} {targets : Option TargetSet} {p : Program A Outcome}

/-- **Within a delivery on a bus an event is delivered to the listeners of that delivery**, without
waiting. -/
theorem Encloses.publish_followed (hx : x.IsOrderly) (h : x.Encloses t b m i)
    {next : Delivery → Program A Outcome} (hp : Bus.Publishes cast b event targets p next)
    (hij : i ≤ j) (huncut : x.Uncut t calls.length i j)
    (hk : (x.state i).core t = some ⟨.running p, calls, passes⟩) :
    x.Reenters cast event targets (x.listeners b m) t calls passes next i j := by
  obtain ⟨next', rfl, -, hsome⟩ := hp.program
  rcases h.look hx hij huncut hk with hrests | ⟨n, hn, hacts⟩
  · exact .continues [] List.nil_prefix (hrests.spends hij)
  · have hlooked := hacts.spends_nothing nofun fun _ hq => hq
    have hafter := hacts.after
    rw [hsome] at hafter
    rcases deliverTo_followed _ (huncut.tail hlooked.le) hn hafter with
      ⟨callees, hprefix, hspends⟩ | ⟨r, d, hr, hback, hspends, hattempts⟩
    · exact .continues callees hprefix (hlooked.trans hspends)
    · refine .returns r d hr (hlooked.trans hspends) ?_ hback
      rw [hattempts, Bus.meant, List.length_map]
      exact Nat.zero_add _

/-- **Within a delivery on a bus its listeners are seen at once**, those of that delivery. -/
theorem Encloses.view_followed (hx : x.IsOrderly) (h : x.Encloses t b m i)
    {next : List ListenerId → Program A Outcome} (hp : Bus.Views b p next)
    (hij : i ≤ j) (huncut : x.Uncut t calls.length i j)
    (hk : (x.state i).core t = some ⟨.running p, calls, passes⟩) :
    x.Peeks (x.listeners b m) t calls passes p next i j := by
  obtain ⟨next', rfl, hsome, -⟩ := hp.program
  rcases h.look hx hij huncut hk with hrests | ⟨n, hn, hacts⟩
  · exact .rests hrests
  · have hafter := hacts.after
    rw [hsome] at hafter
    exact .sees n hacts.le hn hacts.rests hacts.turn hafter

/-! ### Outside of any delivery -/

/-- How far a look at the listeners of a bus has come after `j` steps that task `t` was up to make after
`i` steps, outside of any delivery there. -/
inductive Asks (x : Execution w) (b : BusId) (t : TaskId) (calls : Calls A) (passes : List Pass)
    (next : List ListenerId → Program A Outcome) (i j : Nat) : Prop where
  /-- The task has not seen anything yet. -/
  | waits (doing : Doing A) : (x.state j).core t = some ⟨doing, calls, passes⟩ →
      doing.awaitsView b → Asks x b t calls passes next i j
  /-- With the step after `n` steps the task, which has been granted the lock, has gone on with the
  listeners of the moment. -/
  | reads (n : Nat) : i ≤ n → n < j → x.turn n = some t →
      (∃ bs, (x.state n).bus b = some bs ∧ ⟨t, .read⟩ ∈ bs.lock.holders) →
      (x.state (n + 1)).core t = some ⟨.running (next (x.listeners b n)), calls, passes⟩ →
      Asks x b t calls passes next i j

/-- **Outside of any delivery on a bus whoever looks at its listeners waits for the lock.** -/
theorem view_followed {next : List ListenerId → Program A Outcome} (hp : Bus.Views b p next)
    (houtside : NoneOn b passes) (hij : i ≤ j) (huncut : x.Uncut t calls.length i j)
    (hk : (x.state i).core t = some ⟨.running p, calls, passes⟩) :
    x.Asks b t calls passes next i j := by
  obtain ⟨next', rfl, -, hnone⟩ := hp.program
  -- The task looks whether it is part of a delivery on this bus, which it is not.
  rcases look_outside houtside hij huncut hk with hrests | ⟨n₁, hn₁, hacts₁⟩
  · exact .waits _ (hrests.last hij) rfl
  have hk₁ := hacts₁.after
  rw [hnone] at hk₁
  have huncut₁ := huncut.tail (Nat.le_succ_of_le hacts₁.le)
  -- It asks for the lock.
  rcases first_turn huncut₁ hn₁ hk₁ with hrests | ⟨n₂, k₂, hn₂, hacts₂⟩
  · exact .waits _ (hrests.last hn₁) rfl
  obtain rfl := Step.of_listeners hacts₂.goesOn hacts₂.depth hacts₂.step
  have huncut₂ := huncut₁.tail (Nat.le_succ_of_le hacts₂.le)
  -- It waits for the lock, and reads the listeners.
  rcases first_turn huncut₂ hn₂ hacts₂.after with hrests | ⟨n, k₃, hn, hacts₃⟩
  · exact .waits _ (hrests.last hn₂) rfl
  obtain ⟨bs, hbs, hwaiting, rfl⟩ := Step.of_reading hacts₃.goesOn hacts₃.depth hacts₃.step
  have hset : x.listeners b n = bs.listeners := State.listenersOf_eq hbs
  have hin : i ≤ n :=
    Nat.le_trans (Nat.le_succ_of_le hacts₁.le) (Nat.le_trans (Nat.le_succ_of_le hacts₂.le) hacts₃.le)
  have hgranted := granted_of_wanted hacts₃.before (one_self b .read) hbs hwaiting
  exact .reads n hin hn hacts₃.turn ⟨bs, hbs, hgranted⟩ (by rw [hset, hacts₃.after])

end Execution

end Machine

/-! ### A listener that publishes -/

theorem Machine.Step.not_ended {t : TaskId} {g g' : Buses} {k k' : Core A}
    (h : Step w t g k g' k') : k.doing ≠ .ended := by
  cases h with
  | goes _ hended => exact hended
  | leaves _ hended => exact hended
  | finishes hended => exact hended
  | _ => exact nofun

/-- The execution of one program that obeys. -/
theorem Machine.Execution.solo_isOrderly {p : Program A Outcome} {memory : A.Memory}
    (hw : w.IsOrderly) (hp : p.Obeys .free) : (Execution.solo w p memory).IsOrderly := by
  refine ⟨hw, fun n t q calls hended hbegun => ?_⟩
  cases n with
  | zero =>
    cases t with
    | zero => cases hbegun; exact ⟨hp, nofun⟩
    | succ t => cases hended
  | succ n =>
    -- Only the main task's own steps are left, and it takes none once it has ended.
    change ((State.solo w p memory (n + 1)).core t) = _ at hended
    change (((State.solo w p memory (n + 1)).advance w State.mainTask).getD _).core t = _ at hbegun
    cases hadvance : (State.solo w p memory (n + 1)).advance w State.mainTask with
    | none =>
      rw [hadvance, Option.getD_none, hended] at hbegun
      cases hbegun
    | some s =>
      rw [hadvance, Option.getD_some] at hbegun
      have hstepped := State.advance_stepped hadvance
      by_cases ht : t = State.mainTask
      · subst ht
        obtain ⟨k, k', hk, -, hstep⟩ := hstepped.own
        obtain rfl := Option.some.inj (hended.symm.trans hk)
        exact absurd rfl hstep.not_ended
      · rcases hstepped.others t ht with hsame | ⟨hnone, -⟩
        · cases (hsame.symm.trans hbegun).symm.trans hended
        · cases hnone.symm.trans hended

/-- What a listener does that is told of a shutdown: it announces that a phase is over. -/
def Program.sampleEcho (n : Nat) : Program .bare Outcome :=
  Bus.publish .sample 0 (.phaseCompleted .shutdown n) none >>= fun _ => .done (.ok ())

/-- A world in which listeners that are told of a shutdown look at the listeners of the bus and publish on
it themselves. -/
def World.echoing : World .bare where
  cast := .sample
  body
    | .onEvent _ (.shutdownRequested _) => Bus.size 0 >>= Program.sampleEcho
    | _ => .done (.ok ())
  job _ := .done (.ok ())

theorem World.echoing_isOrderly : World.echoing.IsOrderly where
  body callee := by
    unfold World.echoing
    dsimp only
    split
    · exact (Bus.obeys_size 0).bind fun n => (Bus.obeys_publish _ _ _ _).bind fun _ => rfl
    · rfl
  job _ := rfl

theorem Program.sampleSession_obeys : Program.sampleSession.Obeys .free :=
  (Bus.obeys_register _ _ _).bind fun _ => (Bus.obeys_publish _ _ _ _).bind fun _ =>
    (Bus.obeys_register _ _ _).bind fun _ => rfl

/-- The execution of the sample session in that world. -/
def Machine.Execution.echoing : Execution World.echoing :=
  .solo World.echoing Program.sampleSession ()

/-! ### The main result -/

/-- **Publishing from within a delivery never waits for the lock of its bus**, whoever takes turns when,
whatever is nested in what, and whoever waits to change the listeners. -/
theorem reentrant_publishing (x : Execution w) (hx : x.IsOrderly) (t : TaskId) (b : BusId) :
    -- A task has the deliveries that it is part of, from the innermost to the outermost, with the
    -- listeners that they began with; and each bus at most once.
    (∀ n k, (x.state n).core t = some k → (k.passes.map Pass.bus).Nodup ∧
      (∀ p, p ∈ k.passes ↔ ∃ m, x.Encloses t p.bus m n ∧ p.set = x.listeners p.bus m) ∧
      ∀ ps p outer, k.passes = ps ++ p :: outer →
        ∃ m calls, x.Surrounds t p.bus calls outer m n ∧ p.set = x.listeners p.bus m) ∧
    -- When a delivery is over, however it comes to its end, the task has those again that are around it.
    (∀ calls outer m n, x.Surrounds t b calls outer m n →
      x.Surrounds t b calls outer m (n + 1) ∨ x.Ceases t calls outer n) ∧
    -- So it has after every call, whatever becomes of it.
    (∀ callee limit next calls passes i j, i ≤ j → x.Uncut t calls.length i j →
      (x.state i).core t = some ⟨.running (.perform (.call callee limit) next), calls, passes⟩ →
      (∃ callees, callees <+: [callee] ∧ x.Spends t calls.length passes callees i j) ∨
        ∃ n o, n ≤ j ∧ x.Spends t calls.length passes [callee] i n ∧
          (x.state n).core t = some ⟨.running (next o), calls, passes⟩) ∧
    -- Of all deliveries on the bus around a task one has read the listeners; they are those of the bus
    -- still, and the task holds the lock by that delivery alone and does not ask for it.
    (∀ m n, x.Encloses t b m n → (∀ m', x.Encloses t b m' n → m' = m) ∧
      x.listeners b n = x.listeners b m ∧ x.ReadsOnce t b n ∧
      ∀ k, (x.state n).core t = some k → ¬ k.doing.WantsToRead b) ∧
    -- Whoever delivers an event within a delivery on the bus uses the listeners of that delivery, and
    -- stays within it for as long as that takes.
    (∀ m cast event targets p next calls passes i j, Bus.Publishes cast b event targets p next →
      x.Encloses t b m i → i ≤ j → x.Uncut t calls.length i j →
      (x.state i).core t = some ⟨.running p, calls, passes⟩ →
      x.Reenters cast event targets (x.listeners b m) t calls passes next i j ∧
        ∀ n, i ≤ n → n ≤ j → x.Encloses t b m n) ∧
    -- Whoever does so anywhere else asks for the lock, and uses the listeners of the moment when it has
    -- been granted.
    (∀ cast event targets p next calls passes i j, Bus.Publishes cast b event targets p next →
      (∀ m, ¬ x.Encloses t b m i) → i ≤ j → x.Uncut t calls.length i j →
      (x.state i).core t = some ⟨.running p, calls, passes⟩ →
      x.Delivers cast b event targets t calls passes next i j) ∧
    -- The same holds for whoever looks at the listeners.
    (∀ m p next calls passes i j, Bus.Views b p next → x.Encloses t b m i → i ≤ j →
      x.Uncut t calls.length i j → (x.state i).core t = some ⟨.running p, calls, passes⟩ →
      x.Peeks (x.listeners b m) t calls passes p next i j) ∧
    (∀ p next calls passes i j, Bus.Views b p next → (∀ m, ¬ x.Encloses t b m i) → i ≤ j →
      x.Uncut t calls.length i j → (x.state i).core t = some ⟨.running p, calls, passes⟩ →
      x.Asks b t calls passes next i j) := by
  refine ⟨fun n k hk => ?_, fun calls outer m n h => h.succ hx, ?_, fun m n h => ?_, ?_, ?_, ?_, ?_⟩
  · refine ⟨(Execution.orderly hx n hk).nodup, fun p => Execution.mem_passes_iff hx hk, ?_⟩
    intro ps p outer hpasses
    exact Execution.surrounds_of_passes hx hk hpasses
  · intro callee limit next calls passes i j hij huncut hk
    rcases Execution.call_followed huncut hij hk with hpending | ⟨n, o, hn, hback, hspends⟩
    · exact .inl hpending
    · exact .inr ⟨n, o, hn, hspends, hback⟩
  · refine ⟨fun m' h' => h'.unique hx h, h.listeners_eq, h.readsOnce hx, fun k hk => ?_⟩
    exact h.not_wantsToRead hx hk
  · intro m cast event targets p next calls passes i j hp h hij huncut hk
    refine ⟨h.publish_followed hx hp hij huncut hk, fun n hi hj => ?_⟩
    obtain ⟨next', rfl, -⟩ := hp.program
    have hdepth := (Execution.orderly hx i hk).of_enclosing
    exact h.mono hk hdepth hx hi (huncut.mono (Nat.le_refl i) hj)
  · intro cast event targets p next calls passes i j hp houtside hij huncut hk
    exact Execution.publish_followed hp ((Execution.noneOn_iff hx hk).2 houtside) hij huncut hk
  · intro m p next calls passes i j hp h hij huncut hk
    exact h.view_followed hx hp hij huncut hk
  · intro p next calls passes i j hp houtside hij huncut hk
    exact Execution.view_followed hp ((Execution.noneOn_iff hx hk).2 houtside) hij huncut hk

/-- The listener publishes within the delivery that has called it, and so to itself. -/
theorem reentrant_publishing_echo : ∃ m calls passes next,
    Execution.echoing.Encloses 0 0 m 10 ∧ Execution.echoing.ReadsOnce 0 0 10 ∧
      Execution.echoing.Reenters .sample (.phaseCompleted .shutdown 1) none
        (Execution.echoing.listeners 0 m) 0 calls passes next 10 13 ∧
      Execution.echoing.heard 0 1 10 13 = [.onEvent 7 (.phaseCompleted .shutdown 1)] := by
  have hx : Execution.echoing.IsOrderly :=
    Execution.solo_isOrderly World.echoing_isOrderly Program.sampleSession_obeys
  obtain ⟨hlist, -, -, hwithin, hpublish, -, -⟩ := reentrant_publishing Execution.echoing hx 0 0
  obtain ⟨doing, calls, hk⟩ : ∃ doing calls,
      (Execution.echoing.state 10).core 0 = some ⟨doing, calls, [⟨0, [7]⟩]⟩ := ⟨_, _, rfl⟩
  obtain ⟨m, henc, -⟩ := ((hlist 10 _ hk).2.1 ⟨0, [7]⟩).1 List.mem_cons_self
  have hreenters := (hpublish m .sample _ none _ _ _ _ 10 13 (.emit _) henc (by decide)
    (Execution.uncut_of_isWithin (by decide)) rfl).1
  exact ⟨m, _, _, _, henc, (hwithin m 10 henc).2.2.1, hreenters, rfl⟩

end Orchestra
