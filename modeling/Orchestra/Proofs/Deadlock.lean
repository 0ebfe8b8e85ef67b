import Mathlib.Order.WellFoundedSet
import Orchestra.Proofs.Enclosing
import Orchestra.Proofs.Staging

/-!
# Circles of buses

A listener that publishes on the bus it is told on waits for nobody.  One that publishes on another bus
waits there like everybody else, and so tasks may come to wait for each other in a circle.

* `State.IsDeadlock` — tasks wait for locks that only others of them hold or are ahead for;
* `Execution.EditsOutside` — nobody changes listeners from within a delivery;
* `Core.Nests` — a task delivers on one bus and waits, within, to deliver on another;
* `State.Crosses` — it does so while somebody waits to change the listeners of the other bus;
* `State.IsDeadlock.exists_crosses` — from every bus of a deadlock such a step leads to another one;
* `deadlock_is_circle` — so each deadlock has a circle of buses, and there is none where deliveries are
  nested in one direction only;
* `deadlock_across_buses` — with two buses there is a circle.
-/

namespace Orchestra

open Machine

variable {A : Application} {w : World A}

/-! ### Deadlocks -/

namespace Machine

/-- A task waits for the lock of a bus, and whoever holds it or is ahead in the queue is another task of a
set. -/
def State.Blocked (s : State A) (D : Set TaskId) (t : TaskId) (b : BusId) : Prop :=
  ∃ bs a before after, s.bus b = some bs ∧ bs.lock.queue = before ++ ⟨t, a⟩ :: after ∧
    ∀ c ∈ bs.lock.holders ++ before, c.task ∈ D ∧ c.task ≠ t

/-- Some tasks wait for locks that only others of them hold or are ahead for. -/
structure State.IsDeadlock (s : State A) (D : Set TaskId) : Prop where
  nonempty : D.Nonempty
  blocked : ∀ t ∈ D, ∃ b, s.Blocked D t b

/-- Nobody changes listeners from within a delivery. -/
def Execution.EditsOutside (x : Execution w) : Prop :=
  ∀ n t b e next calls passes,
    (x.state n).core t = some ⟨.running (.perform (.edit b e) next), calls, passes⟩ → passes = []

/-- A task waits to read the listeners of a bus. -/
def Doing.AwaitsRead (b : BusId) (doing : Doing A) : Prop :=
  ∃ next, doing = .waiting (.beginning b next) ∨ doing = .waiting (.reading b next)

/-- A task waits to change the listeners of a bus. -/
def Doing.AwaitsWrite (b : BusId) (doing : Doing A) : Prop :=
  ∃ e next, doing = .waiting (.editing b e next)

/-- A task delivers on one bus and waits, within that delivery, to read the listeners of another. -/
def Core.Nests (k : Core A) (b b' : BusId) : Prop :=
  (∃ p ∈ k.passes, p.bus = b) ∧ k.doing.AwaitsRead b'

/-- A task of a set delivers on one bus and waits, within that delivery, for another; and there a task of
the set waits to change the listeners. -/
structure State.Crosses (s : State A) (D : Set TaskId) (b b' : BusId) : Prop where
  ne : b ≠ b'
  nests : ∃ t ∈ D, ∃ k, s.core t = some k ∧ k.Nests b b'
  writer : ∃ u ∈ D, ∃ k, s.core u = some k ∧ k.doing.AwaitsWrite b'

/-! ### Whoever waits -/

section Doing

variable {b b' : BusId} {a a' : Access} {k : Core A} {doing : Doing A}

theorem access_eq_of_one_pos (h : 0 < one b' a' b a) : a' = a := by
  by_contra hne
  rw [one_of_access_ne hne] at h
  exact absurd h (Nat.lt_irrefl 0)

/-- Whoever wants the lock of a bus waits to read or to change its listeners. -/
theorem Doing.awaits_of_wanted (h : 0 < doing.wanted b a) :
    a = .read ∧ doing.AwaitsRead b ∨ a = .write ∧ doing.AwaitsWrite b := by
  cases doing with
  | waiting wait =>
    cases wait with
    | beginning b' next =>
      obtain rfl := bus_eq_of_one_pos h
      exact .inl ⟨(access_eq_of_one_pos h).symm, next, .inl rfl⟩
    | reading b' next =>
      obtain rfl := bus_eq_of_one_pos h
      exact .inl ⟨(access_eq_of_one_pos h).symm, next, .inr rfl⟩
    | editing b' e next =>
      obtain rfl := bus_eq_of_one_pos h
      exact .inr ⟨(access_eq_of_one_pos h).symm, e, next, rfl⟩
    | _ => exact absurd h (Nat.lt_irrefl 0)
  | _ => exact absurd h (Nat.lt_irrefl 0)

/-- Nobody waits for a lock and has it in use at once. -/
theorem Doing.held_of_wanted (h : 0 < doing.wanted b a) (b' : BusId) (a' : Access) :
    doing.held b' a' = 0 := by
  rcases Doing.awaits_of_wanted h with ⟨-, next, rfl | rfl⟩ | ⟨-, e, next, rfl⟩ <;> rfl

/-- A task waits for one claim only, and once. -/
theorem Doing.wanted_unique (h : 0 < doing.wanted b a) (h' : 0 < doing.wanted b' a') :
    b' = b ∧ a' = a ∧ doing.wanted b a = 1 := by
  rcases Doing.awaits_of_wanted h with ⟨rfl, next, rfl | rfl⟩ | ⟨rfl, e, next, rfl⟩
  · exact ⟨(bus_eq_of_one_pos h').symm, (access_eq_of_one_pos h').symm, one_self b .read⟩
  · exact ⟨(bus_eq_of_one_pos h').symm, (access_eq_of_one_pos h').symm, one_self b .read⟩
  · exact ⟨(bus_eq_of_one_pos h').symm, (access_eq_of_one_pos h').symm, one_self b .write⟩

/-- Deliveries only read. -/
theorem access_of_heldBy_pos {ps : List Pass} (h : 0 < heldBy b ps a) : a = .read := by
  induction ps with
  | nil => exact absurd h (Nat.lt_irrefl 0)
  | cons p rest ih =>
    by_cases hp : 0 < one p.bus .read b a
    · exact (access_eq_of_one_pos hp).symm
    · rw [heldBy_cons] at h
      exact ih (by omega)

theorem Core.Orderly.ne_of_nests (h : k.Orderly) (hnests : k.Nests b b') : b ≠ b' := by
  obtain ⟨⟨p, hp, rfl⟩, next, hawaits⟩ := hnests
  have hwants : k.doing.WantsToRead b' := by rcases hawaits with heq | heq <;> rw [heq] <;> rfl
  exact (h.of_wantsToRead hwants).1 p hp

/-- Whoever comes to wait for changing listeners was about to change them. -/
theorem Step.of_awaitsWrite {t : TaskId} {g g' : Buses} {k' : Core A} (hstep : Step w t g k g' k')
    (hwaits : k'.doing.AwaitsWrite b) :
    ∃ e next, k = ⟨.running (.perform (.edit b e) next), k'.calls, k'.passes⟩ := by
  obtain ⟨e, next, hdoing⟩ := hwaits
  cases hstep with
  | goes _ _ hclaim =>
    cases hdoing
    cases hclaim
  | wantsToEdit =>
    cases hdoing
    exact ⟨e, next, rfl⟩
  | _ => cases hdoing

end Doing

namespace Execution

variable {x : Execution w} {n : Nat} {t : TaskId} {b b' : BusId} {bs bs' : BusState}
  {k : Core A} {D : Set TaskId}

/-- Whoever waits to change listeners does so from outside of any delivery. -/
theorem EditsOutside.passes_eq_nil (hout : x.EditsOutside) (hk : (x.state n).core t = some k)
    (hwaits : k.doing.AwaitsWrite b) : k.passes = [] := by
  induction n generalizing k with
  | zero =>
    obtain ⟨buses, memory, hstart⟩ := x.start
    rw [hstart] at hk
    rw [State.core_start hk]
  | succ n ih =>
    rcases x.core_cases hk with ⟨-, hsame⟩ | ⟨k₀, -, hk₀, hstep⟩ | ⟨-, job, rfl⟩ |
      ⟨-, p, calls, rfl, -⟩ | rfl
    · exact ih hsame hwaits
    · obtain ⟨e', next', rfl⟩ := hstep.of_awaitsWrite hwaits
      exact hout n t b e' next' k.calls k.passes hk₀
    · rfl
    · rfl
    · rfl

/-- Behind a claim in the queue of a lock there is a task that waits. -/
theorem wanted_of_queued (hbs : (x.state n).bus b = some bs) {c : Claim} (hc : c ∈ bs.lock.queue) :
    ∃ k, (x.state n).core c.task = some k ∧ 0 < k.doing.wanted b c.access := by
  have hbooks := (x.sound n).kept b bs hbs
  have hcount : 0 < bs.lock.queue.count c := List.count_pos_iff.2 hc
  have htotal := hbooks.total c
  have hgranted := hbooks.granted c
  have hwanted : 0 < wantedIn (x.state n).core b c := by omega
  rw [wantedIn] at hwanted
  cases hk : (x.state n).core c.task with
  | none =>
    rw [hk] at hwanted
    exact absurd hwanted (Nat.lt_irrefl 0)
  | some k =>
    rw [hk] at hwanted
    exact ⟨k, rfl, hwanted⟩

/-- **Whoever holds a lock and waits for one delivers on the bus of the one**, and waits within that
delivery to read the listeners of the other. -/
theorem nests_of_holder (hout : x.EditsOutside) {c c' : Claim}
    (hbs : (x.state n).bus b = some bs) (hc : c ∈ bs.lock.holders)
    (hbs' : (x.state n).bus b' = some bs') (hc' : c' ∈ bs'.lock.queue) (htask : c'.task = c.task) :
    c.access = .read ∧ ∃ k, (x.state n).core c.task = some k ∧ k.Nests b b' := by
  obtain ⟨k, hk, hwanted⟩ := wanted_of_queued hbs' hc'
  have hbooks := (x.sound n).kept b bs hbs
  have hcount : 0 < bs.lock.holders.count c := List.count_pos_iff.2 hc
  have htotal := hbooks.total c
  rw [htask] at hk
  rw [heldIn, wantedIn, hk] at htotal
  simp only [Option.map_some, Option.getD_some, Core.held, Core.wanted,
    Doing.held_of_wanted hwanted, Nat.zero_add] at htotal
  by_cases hpasses : 0 < heldBy b k.passes c.access
  · obtain ⟨p, hp, hpb⟩ := exists_pass_of_heldBy_pos hpasses
    refine ⟨access_of_heldBy_pos hpasses, k, hk, ⟨p, hp, hpb⟩, ?_⟩
    rcases Doing.awaits_of_wanted hwanted with ⟨-, hreads⟩ | ⟨-, hwrites⟩
    · exact hreads
    · rw [hout.passes_eq_nil hk hwrites] at hp
      cases hp
  · -- Otherwise the claim that has been granted is the one that waits, which is there only once.
    have hgranted : 0 < k.doing.wanted b c.access := by omega
    obtain ⟨rfl, haccess, hone⟩ := Doing.wanted_unique hwanted hgranted
    obtain rfl := Option.some.inj (hbs.symm.trans hbs')
    obtain rfl : c' = c := by
      obtain ⟨u, a⟩ := c
      obtain ⟨u', a'⟩ := c'
      obtain rfl : u' = u := htask
      obtain rfl : a = a' := haccess
      rfl
    have hqueued : 0 < bs.lock.queue.count c' := List.count_pos_iff.2 hc'
    omega

end Execution

/-! ### From bus to bus -/

namespace State.IsDeadlock

variable {x : Execution w} {n : Nat} {t : TaskId} {b : BusId} {D : Set TaskId}

/-- Every task of a deadlock has a claim in a queue. -/
theorem exists_queued {s : State A} (h : s.IsDeadlock D) (ht : t ∈ D) :
    ∃ b bs c, s.Blocked D t b ∧ s.bus b = some bs ∧ c ∈ bs.lock.queue ∧ c.task = t := by
  obtain ⟨b, hblocked⟩ := h.blocked t ht
  obtain ⟨bs, a, before, after, hbs, hqueue, -⟩ := id hblocked
  refine ⟨b, bs, ⟨t, a⟩, hblocked, hbs, ?_, rfl⟩
  rw [hqueue]
  exact List.mem_append_right _ List.mem_cons_self

/-- Whoever holds the lock that a task of a deadlock waits for reads, delivers there, and waits for another
bus of the deadlock. -/
theorem holder (h : (x.state n).IsDeadlock D) (hout : x.EditsOutside)
    (hblocked : (x.state n).Blocked D t b) {bs : BusState} (hbs : (x.state n).bus b = some bs)
    {c : Claim} (hc : c ∈ bs.lock.holders) :
    c.task ∈ D ∧ c.access = .read ∧
      ∃ b' k, (x.state n).Blocked D c.task b' ∧ (x.state n).core c.task = some k ∧ k.Nests b b' := by
  obtain ⟨bs', a, before, after, hbs', -, hall⟩ := hblocked
  obtain rfl := Option.some.inj (hbs.symm.trans hbs')
  have hD := (hall c (List.mem_append_left _ hc)).1
  obtain ⟨b', bs'', c', hblocked', hbs'', hc', htask⟩ := h.exists_queued hD
  obtain ⟨hread, k, hk, hnests⟩ := Execution.nests_of_holder hout hbs hc hbs'' hc' htask
  exact ⟨hD, hread, b', k, hblocked', hk, hnests⟩

/-- Where a task of a deadlock waits, a task of the deadlock waits to change the listeners: whoever holds
the lock reads, and lets readers in. -/
theorem writer (h : (x.state n).IsDeadlock D) (hfair : x.IsFair) (hout : x.EditsOutside) (ht : t ∈ D)
    (hblocked : (x.state n).Blocked D t b) :
    ∃ u ∈ D, ∃ k, (x.state n).core u = some k ∧ k.doing.AwaitsWrite b := by
  obtain ⟨bs, a, before, after, hbs, hqueue, hall⟩ := id hblocked
  obtain ⟨first, rest, hfirst, hD⟩ :
      ∃ first rest, bs.lock.queue = first :: rest ∧ first.task ∈ D := by
    cases before with
    | nil => exact ⟨_, _, hqueue, ht⟩
    | cons d ds =>
      exact ⟨d, _, hqueue, (hall d (List.mem_append_right _ List.mem_cons_self)).1⟩
  have hkept := hfair n b bs hbs first rest hfirst
  have hwrite : first.access = .write := by
    cases haccess : first.access with
    | write => rfl
    | read =>
      rw [haccess, Lock.admits, List.all_eq_false] at hkept
      obtain ⟨c, hc, hnot⟩ := hkept
      exact absurd (decide_eq_true (h.holder hout hblocked hbs hc).2.1) hnot
  obtain ⟨k, hk, hwanted⟩ := Execution.wanted_of_queued hbs (hfirst ▸ List.mem_cons_self)
  refine ⟨first.task, hD, k, hk, ?_⟩
  rcases Doing.awaits_of_wanted hwanted with ⟨hread, -⟩ | ⟨-, hwrites⟩
  · cases hread.symm.trans hwrite
  · exact hwrites

/-- **From every bus of a deadlock a nested delivery leads to another one.** -/
theorem exists_crosses (h : (x.state n).IsDeadlock D) (hfair : x.IsFair) (hx : x.IsOrderly)
    (hout : x.EditsOutside) (hblocked : (x.state n).Blocked D t b) :
    ∃ b', (x.state n).Crosses D b b' ∧ ∃ u ∈ D, (x.state n).Blocked D u b' := by
  obtain ⟨bs, a, before, after, hbs, hqueue, -⟩ := id hblocked
  have hwaits : bs.lock.isWaiting t = true := by
    refine List.any_eq_true.2 ⟨⟨t, a⟩, ?_, decide_eq_true rfl⟩
    rw [hqueue]
    exact List.mem_append_right _ List.mem_cons_self
  obtain ⟨c, hc⟩ := (hfair n b bs hbs).exists_holder hwaits
  obtain ⟨hD, -, b', k, hblocked', hk, hnests⟩ := h.holder hout hblocked hbs hc
  exact ⟨b', ⟨(Execution.orderly hx n hk).ne_of_nests hnests, ⟨c.task, hD, k, hk, hnests⟩,
    h.writer hfair hout hD hblocked'⟩, c.task, hD, hblocked'⟩

/-- Among finitely many buses the nested deliveries of a deadlock lead back to one where they began. -/
theorem exists_circle (h : (x.state n).IsDeadlock D) (hfair : x.IsFair) (hx : x.IsOrderly)
    (hout : x.EditsOutside) : ∃ b, Relation.TransGen ((x.state n).Crosses D) b b := by
  by_contra hacyclic
  let leadsTo (b' b : BusId) : Prop := Relation.TransGen ((x.state n).Crosses D) b b'
  have : IsStrictOrder BusId leadsTo :=
    { irrefl := fun b hb => hacyclic ⟨b, hb⟩
      trans := fun _ _ _ h₁ h₂ => Relation.TransGen.trans h₂ h₁ }
  have hfinite : {b | ∃ t ∈ D, (x.state n).Blocked D t b}.Finite := by
    refine (Set.finite_lt_nat (x.state n).buses.length).subset fun b hb => ?_
    obtain ⟨t, -, bs, a, before, after, hbs, -⟩ := hb
    exact (List.getElem?_eq_some_iff.1 hbs).1
  obtain ⟨t, ht⟩ := h.nonempty
  obtain ⟨b, hblocked⟩ := h.blocked t ht
  obtain ⟨last, -, hlast⟩ := (hfinite.wellFoundedOn (r := leadsTo)).has_min Set.univ
    ⟨⟨b, t, ht, hblocked⟩, trivial⟩
  obtain ⟨u, -, hblocked'⟩ := last.2
  obtain ⟨b', hcrosses, hb'⟩ := h.exists_crosses hfair hx hout hblocked'
  exact hlast ⟨b', hb'⟩ trivial (.single hcrosses)

end State.IsDeadlock

end Machine

/-! ### Two buses -/

/-- Somebody who has a job publishes on a bus, or registers a listener there. -/
def Application.crossing : Application where
  Job := BusId × Bool
  Effect := Empty
  Answer _ := Unit
  Memory := Unit
  perform e := e.elim

/-- A world in which a listener that is told of a shutdown publishes on the other one of two buses. -/
def World.crossing : World .crossing where
  cast := .sample
  body
    | .onEvent l (.shutdownRequested _) =>
      Bus.publish .sample (if l = 7 then 1 else 0) (.phaseCompleted .shutdown 0) none
        >>= fun _ => .done (.ok ())
    | _ => .done (.ok ())
  job
    | (b, true) => Bus.publish .sample b (.shutdownRequested "test") none >>= fun _ => .done (.ok ())
    | (b, false) => Bus.register .sample b 9 >>= fun _ => .done (.ok ())

/-- One listener is registered on each of two buses; then there is somebody who publishes on each of them,
and somebody who registers another listener there. -/
def Program.crossing : Program .crossing Outcome := do
  let _ ← Bus.register .sample 0 7
  let _ ← Bus.register .sample 1 8
  .ask (.spawn "first" (0, true))
  .ask (.spawn "second" (1, true))
  .ask (.spawn "third" (0, false))
  .ask (.spawn "fourth" (1, false))
  return .ok ()

/-- Both who publish have called the listener, when both who register ask for the locks; then the listeners
ask for them as well. -/
def Machine.Move.crossing : List Move :=
  List.replicate 13 (.step 0) ++ List.replicate 5 (.step 1) ++ List.replicate 5 (.step 2)
    ++ [.step 3, .step 4, .step 1, .step 2]

/-- The execution in which they all come to wait for each other. -/
def Machine.Execution.crossing : Execution World.crossing :=
  .directed World.crossing 2 Program.crossing () Move.crossing

theorem World.crossing_isOrderly : World.crossing.IsOrderly where
  body callee := by
    unfold World.crossing
    dsimp only
    split
    · exact (Bus.obeys_publish _ _ _ _).bind fun _ => rfl
    · rfl
  job j := by
    obtain ⟨b, publishes⟩ := j
    cases publishes with
    | true => exact (Bus.obeys_publish _ _ _ _).bind fun _ => rfl
    | false => exact (Bus.obeys_register _ _ _).bind fun _ => rfl

theorem Machine.Execution.crossing_isOrderly : Execution.crossing.IsOrderly :=
  Execution.directed_isOrderly World.crossing_isOrderly <|
    (Bus.obeys_register _ _ _).bind fun _ => (Bus.obeys_register _ _ _).bind fun _ =>
      (Program.obeys_ask id).bind fun _ => (Program.obeys_ask id).bind fun _ =>
        (Program.obeys_ask id).bind fun _ => (Program.obeys_ask id).bind fun _ => rfl

/-- Whether a task is not about to change listeners from within a delivery. -/
def Machine.Core.editsOutside (k : Core A) : Bool :=
  match k.doing with
  | .running (.perform (.edit ..) _) => k.passes.isEmpty
  | _ => true

/-- Four tasks, and a clock that stands still. -/
theorem Machine.Execution.crossing_rest {n : Nat} (hn : 28 ≤ n) :
    Execution.crossing.state n = Execution.crossing.state 28 :=
  Execution.directed_rest rfl hn

theorem Machine.Execution.crossing_editsOutside : Execution.crossing.EditsOutside := by
  have hmoves : ∀ n, n ≤ 28 → ((Execution.crossing.state n).tasks.map Task.core).all
      Core.editsOutside = true := by decide
  intro n t b e next calls passes hk
  have hall : ((Execution.crossing.state n).tasks.map Task.core).all Core.editsOutside = true := by
    by_cases hn : n ≤ 28
    · exact hmoves n hn
    · rw [Execution.crossing_rest (Nat.le_of_not_le hn)]
      exact hmoves 28 (Nat.le_refl 28)
  have hmem : (⟨.running (.perform (.edit b e) next), calls, passes⟩ : Core .crossing)
      ∈ (Execution.crossing.state n).tasks.map Task.core := by
    rw [State.core, ← List.getElem?_map] at hk
    exact List.mem_of_getElem? hk
  exact List.isEmpty_iff.1 (List.all_eq_true.1 hall _ hmem)

/-- Each of the four tasks waits for others of them: those who publish for each other and for those who
register, who wait for the former. -/
theorem Machine.Execution.crossing_isDeadlock :
    (Execution.crossing.state 28).IsDeadlock {t | t ∈ [1, 2, 3, 4]} where
  nonempty := ⟨1, List.mem_cons_self⟩
  blocked t ht := by
    have hcases : t = 1 ∨ t = 2 ∨ t = 3 ∨ t = 4 := by simpa using ht
    rcases hcases with rfl | rfl | rfl | rfl
    · exact ⟨1, _, .read, [⟨4, .write⟩], [], rfl, rfl, by decide⟩
    · exact ⟨0, _, .read, [⟨3, .write⟩], [], rfl, rfl, by decide⟩
    · exact ⟨0, _, .write, [], [⟨2, .read⟩], rfl, rfl, by decide⟩
    · exact ⟨1, _, .write, [], [⟨1, .read⟩], rfl, rfl, by decide⟩

/-! ### The main result -/

/-- **Tasks that wait for each other's locks wait around a circle of buses**, if listeners are changed from
outside of deliveries only: on each of these buses a task delivers, waits within for the next bus, and
somebody waits there to change the listeners.  So there is no deadlock where deliveries are nested in one
direction only. -/
theorem deadlock_is_circle (x : Execution w) (hfair : x.IsFair) (hx : x.IsOrderly)
    (hout : x.EditsOutside) :
    (∀ n D, (x.state n).IsDeadlock D → ∃ b, Relation.TransGen ((x.state n).Crosses D) b b) ∧
      ∀ rank : BusId → Nat, (∀ n t k b b', (x.state n).core t = some k → k.Nests b b' → b ≠ b' →
        rank b < rank b') → ∀ n D, ¬ (x.state n).IsDeadlock D := by
  refine ⟨fun n D h => h.exists_circle hfair hx hout, fun rank hrank n D h => ?_⟩
  obtain ⟨b, hcircle⟩ := h.exists_circle hfair hx hout
  have hrises : ∀ b', Relation.TransGen ((x.state n).Crosses D) b b' → rank b < rank b' := by
    intro b' hb'
    induction hb' with
    | single hcrosses =>
      obtain ⟨t, -, k, hk, hnests⟩ := hcrosses.nests
      exact hrank n t k _ _ hk hnests hcrosses.ne
    | tail _ hcrosses ih =>
      obtain ⟨t, -, k, hk, hnests⟩ := hcrosses.nests
      exact Nat.lt_trans ih (hrank n t k _ _ hk hnests hcrosses.ne)
  exact Nat.lt_irrefl _ (hrises b hcircle)

/-- The circle of the two buses. -/
theorem deadlock_is_circle_crossing :
    ∃ b, Relation.TransGen ((Execution.crossing.state 28).Crosses {t | t ∈ [1, 2, 3, 4]}) b b :=
  (deadlock_is_circle Execution.crossing Execution.directed_isFair Execution.crossing_isOrderly
    Execution.crossing_editsOutside).1 28 _ Execution.crossing_isDeadlock

/-- **Listeners that only publish can bring about a deadlock across two buses**, though all locks are fair
and listeners are changed from outside of deliveries only; and nothing ends it. -/
theorem deadlock_across_buses :
    Execution.crossing.IsFair ∧ Execution.crossing.IsOrderly ∧ Execution.crossing.EditsOutside ∧
      (∀ l event, World.crossing.body (.onEvent l event) = .done (.ok ()) ∨
        ∃ b event', World.crossing.body (.onEvent l event)
            = (Bus.publish .sample b event' none >>= fun _ => .done (.ok ())) ∧
          ∀ l', World.crossing.body (.onEvent l' event') = .done (.ok ())) ∧
      (Execution.crossing.state 28).IsDeadlock {t | t ∈ [1, 2, 3, 4]} ∧
      ∀ n, 28 ≤ n → Execution.crossing.state n = Execution.crossing.state 28 := by
  refine ⟨Execution.directed_isFair, Execution.crossing_isOrderly, Execution.crossing_editsOutside,
    fun l event => ?_, Execution.crossing_isDeadlock, fun n => Execution.crossing_rest⟩
  cases event with
  | shutdownRequested reason => exact .inr ⟨_, _, rfl, fun l' => rfl⟩
  | _ => exact .inl rfl

end Orchestra
