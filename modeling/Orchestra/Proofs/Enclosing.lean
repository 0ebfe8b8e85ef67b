import Orchestra.Proofs.Delivering
import Orchestra.Proofs.Nesting

/-!
# The deliveries around a task

Which deliveries a task is part of can be told from what it has done before: from where it began them, and
that it has neither ended them nor left a call around them since.  The task itself only has its list.

* `Execution.Surrounds` — a delivery that was begun is in progress;
* `Execution.Encloses` — the same, wherever it was begun;
* `Execution.surrounds_of_passes`, `Execution.encloses_iff` — the list of a task is what surrounds it;
* `Execution.Surrounds.over` — after a delivery, however it ends, the list is as it was before;
* `Execution.Encloses.mono` — what surrounds a call surrounds all of it.
-/

namespace Orchestra.Machine

variable {A : Application}

/-- A task is about to read the listeners of a bus, or waits to do so. -/
def Doing.WantsToRead (b : BusId) : Doing A → Prop
  | running (.perform (.beginDelivery b') _) | running (.perform (.listeners b') _)
  | waiting (.beginning b' _) | waiting (.reading b' _) => b' = b
  | _ => False

namespace Core

variable {k : Core A} {b : BusId} {calls : Calls A} {passes : List Pass}

/-- Whoever is about to read the listeners of a bus is not part of a delivery on it. -/
theorem Orderly.of_wantsToRead (h : k.Orderly) (hwants : k.doing.WantsToRead b) :
    NoneOn b k.passes ∧ depthOf k.calls = k.passes.length := by
  obtain ⟨-, s, own, outer, hpasses, hsuits, hobeys, hstacked⟩ := h
  have hasking : s = .asking b := by
    unfold Doing.WantsToRead at hwants
    split at hwants
    · next heq => rw [heq] at hobeys; rw [← hwants]; exact hobeys.of_beginDelivery.1
    · next heq => rw [heq] at hobeys; rw [← hwants]; exact hobeys.of_listeners.1
    · next heq => rw [heq] at hobeys; rw [← hwants]; exact hobeys.1
    · next heq => rw [heq] at hobeys; rw [← hwants]; exact hobeys.1
    · exact hwants.elim
  subst hasking
  obtain ⟨rfl, hnone⟩ := hsuits
  refine ⟨hnone, ?_⟩
  rw [hpasses, List.nil_append]
  exact hstacked.depthOf_eq

/-- Whoever looks for a delivery around it has not begun one from its call. -/
theorem Orderly.of_enclosing {next : Option (List ListenerId) → Program A Outcome}
    (h : Orderly ⟨.running (.perform (.enclosing b) next), calls, passes⟩) :
    depthOf calls = passes.length := by
  obtain ⟨-, s, own, outer, hpasses, hsuits, hobeys, hstacked⟩ := h
  obtain rfl : s = .free := hobeys.of_enclosing.1
  obtain rfl : own = [] := hsuits
  obtain rfl : passes = outer := hpasses
  exact hstacked.depthOf_eq

/-- Whoever ends a delivery has begun one from its call, and no more than one. -/
theorem Orderly.of_endDelivery {next : Unit → Program A Outcome}
    (h : Orderly ⟨.running (.perform .endDelivery next), calls, passes⟩) :
    ∃ p outer, passes = p :: outer ∧ depthOf calls = outer.length := by
  obtain ⟨-, s, own, outer, hpasses, hsuits, hobeys, hstacked⟩ := h
  obtain rfl : s = .delivering := hobeys.of_endDelivery.1
  obtain ⟨p, rfl⟩ := hsuits
  exact ⟨p, outer, hpasses, hstacked.depthOf_eq⟩

end Core

/-- Deliveries end, or one is begun. -/
theorem Step.passes_cases {w : World A} {t : TaskId} {g g' : Buses} {k k' : Core A}
    (hstep : Step w t g k g' k') :
    k'.passes <:+ k.passes ∨ ∃ b next bs, k = ⟨.waiting (.beginning b next), k.calls, k.passes⟩ ∧
      g b = some bs ∧ bs.lock.isWaiting t = false ∧
      k' = ⟨.running (next bs.listeners), k.calls, ⟨b, bs.listeners⟩ :: k.passes⟩ := by
  cases hstep with
  | begins hbs hwaiting => exact .inr ⟨_, _, _, rfl, hbs, hwaiting, rfl⟩
  | ends => exact .inl (List.suffix_cons _ _)
  | leaves => exact .inl (List.drop_suffix _ _)
  | finishes => exact .inl (List.nil_suffix)
  | _ => exact .inl (List.suffix_refl _)

namespace Execution

variable {w : World A}

/-! ### Deliveries in progress -/

/-- With the step after `m` steps task `t` begins a delivery, which it has waited for. -/
structure Opens (x : Execution w) (t : TaskId) (b : BusId) (calls : Calls A) (outer : List Pass)
    (m : Nat) : Prop extends Begins x b t calls outer m where
  before : ∃ next, (x.state m).core t = some ⟨.waiting (.beginning b next), calls, outer⟩

/-- With the step after `n` steps task `t` ends a delivery from within `d` calls. -/
def Closes (x : Execution w) (t : TaskId) (d n : Nat) : Prop :=
  x.turn n = some t ∧ ∃ next calls passes,
    (x.state n).core t = some ⟨.running (.perform .endDelivery next), calls, passes⟩ ∧
      calls.length = d

/-- The delivery that task `t` began with the step after `m` steps, from within `calls` and deliveries
`outer`, is in progress after `n` steps: the task has neither ended it nor left a call around it. -/
structure Surrounds (x : Execution w) (t : TaskId) (b : BusId) (calls : Calls A)
    (outer : List Pass) (m n : Nat) : Prop where
  lt : m < n
  opens : x.Opens t b calls outer m
  uncut : x.Uncut t calls.length (m + 1) n
  unclosed : ∀ l, m < l → l < n → ¬ x.Closes t calls.length l

/-- After `n` steps task `t` is part of the delivery that it began on a bus with the step after `m`
steps. -/
def Encloses (x : Execution w) (t : TaskId) (b : BusId) (m n : Nat) : Prop :=
  ∃ calls outer, x.Surrounds t b calls outer m n

variable {x : Execution w} {t : TaskId} {b : BusId} {calls : Calls A} {outer : List Pass}
  {i j m n : Nat} {k k' : Core A}

theorem Opens.surrounds (h : x.Opens t b calls outer m) : x.Surrounds t b calls outer m (m + 1) := by
  refine ⟨Nat.lt_succ_self m, h, fun l hl hl' => ?_, fun l hl hl' => ?_⟩
  · obtain rfl := Nat.le_antisymm hl' hl
    obtain ⟨p, hp⟩ := h.after
    exact ⟨_, hp, nofun, Nat.le_refl _⟩
  · omega

theorem Surrounds.upTo (h : x.Surrounds t b calls outer m n) (hm : m < i) (hi : i ≤ n) :
    x.Surrounds t b calls outer m i :=
  ⟨hm, h.opens, h.uncut.mono (Nat.le_refl _) hi,
    fun l hl hl' => h.unclosed l hl (Nat.lt_of_lt_of_le hl' hi)⟩

/-- **What a task does during a delivery, it does on top of it.** -/
theorem Surrounds.atop (h : x.Surrounds t b calls outer m n) :
    ∃ k, (x.state n).core t = some k ∧ k.doing ≠ .ended ∧
      Atop calls (⟨b, x.listeners b m⟩ :: outer) k := by
  obtain ⟨hlt, hopens, huncut, hunclosed⟩ := h
  induction hlt with
  | refl =>
    obtain ⟨p, hp⟩ := hopens.after
    exact ⟨_, hp, nofun, ⟨[], rfl, nofun⟩, [], rfl⟩
  | @step n hlt ih =>
    obtain ⟨k, hk, hended, hatop⟩ := ih (huncut.mono (Nat.le_refl _) (Nat.le_succ n))
      fun l hl hl' => hunclosed l hl (Nat.lt_succ_of_lt hl')
    obtain ⟨k', hk', hended', hdepth⟩ := huncut (n + 1) (Nat.le_succ_of_le hlt) (Nat.le_refl _)
    by_cases hturn : x.turn n = some t
    · rcases (step_of_turn hturn hk hk').atop hatop hended' hdepth with hatop' | ⟨-, next, rfl⟩
      · exact ⟨k', hk', hended', hatop'⟩
      · exact absurd ⟨hturn, next, calls, _, hk, rfl⟩ (hunclosed n hlt (Nat.lt_succ_self n))
    · obtain rfl := same_of_turn_ne hturn hk hended hk' hended'
      exact ⟨k', hk', hended', hatop⟩

/-- The delivery is among those of the task. -/
theorem Surrounds.passes (h : x.Surrounds t b calls outer m n) (hk : (x.state n).core t = some k) :
    ∃ ps, k.passes = ps ++ ⟨b, x.listeners b m⟩ :: outer := by
  obtain ⟨k₀, hk₀, -, hatop⟩ := h.atop
  obtain rfl := Option.some.inj (hk.symm.trans hk₀)
  exact hatop.passes

/-- The calls around a delivery were made no later than the deliveries around it. -/
theorem Opens.depth_le (h : x.Opens t b calls outer m) {f : Nat × (Outcome → Program A Outcome)}
    (hf : f ∈ calls) : f.1 ≤ outer.length := by
  obtain ⟨next, hbefore⟩ := h.before
  exact ((x.sound m).neat t _ hbefore).within f hf

theorem Opens.outside (hx : x.IsOrderly) (h : x.Opens t b calls outer m) :
    NoneOn b outer ∧ depthOf calls = outer.length := by
  obtain ⟨next, hbefore⟩ := h.before
  exact (orderly hx m hbefore).of_wantsToRead rfl

/-- Leaving a call around a delivery: what is in progress then was in progress before the delivery. -/
theorem Surrounds.left (h : x.Surrounds t b calls outer m n) (hk : (x.state n).core t = some k)
    {g g' : Buses} (hstep : Step w t g k g' k') (hended' : k'.doing ≠ .ended)
    (hless : k'.calls.length < calls.length) :
    ∃ inner depth caller o, calls = inner ++ (depth, caller) :: k'.calls ∧
      k' = ⟨.running (caller o), k'.calls, outer.drop (outer.length - depth)⟩ := by
  obtain ⟨k₀, hk₀, -, ⟨above, hcalls, -⟩, ps, hpasses⟩ := h.atop
  obtain rfl := Option.some.inj (hk.symm.trans hk₀)
  have hfewer : k'.calls.length < k.calls.length := by
    rw [hcalls, List.length_append]
    omega
  obtain ⟨inner', depth, caller, o, hcalls', hk'⟩ := hstep.left hended' hfewer
  have hsuffix : (depth, caller) :: k'.calls <:+ calls :=
    List.suffix_of_suffix_length_le ⟨inner', hcalls'.symm⟩ ⟨above, hcalls.symm⟩ hless
  have hdepth : depth ≤ outer.length := h.opens.depth_le (hsuffix.subset List.mem_cons_self)
  obtain ⟨inner, hinner⟩ := hsuffix
  refine ⟨inner, depth, caller, o, hinner.symm, ?_⟩
  have hsplit : k.passes = (ps ++ [⟨b, x.listeners b m⟩]) ++ outer := by
    rw [hpasses, List.append_assoc, List.singleton_append]
  have hcount : k.passes.length - depth
      = (ps ++ [(⟨b, x.listeners b m⟩ : Pass)]).length + (outer.length - depth) := by
    rw [hsplit, List.length_append]
    omega
  refine hk'.trans ?_
  rw [hcount, hsplit, List.drop_length_add_append]

/-- How a delivery is over with the step after `n` steps, when it was begun from within `calls` and
deliveries `outer`. -/
inductive Ceases (x : Execution w) (t : TaskId) (calls : Calls A) (outer : List Pass) (n : Nat) :
    Prop where
  /-- It has been ended, and the deliveries around it are those of the task again. -/
  | ends (p : Program A Outcome) : (x.state (n + 1)).core t = some ⟨.running p, calls, outer⟩ →
      Ceases x t calls outer n
  /-- It has been cut off with one of the calls around it, and the deliveries around that call are those
  of the task again. -/
  | cut (inner rest : Calls A) (depth : Nat) (caller : Outcome → Program A Outcome) (o : Outcome) :
      calls = inner ++ (depth, caller) :: rest →
      (x.state (n + 1)).core t
        = some ⟨.running (caller o), rest, outer.drop (outer.length - depth)⟩ →
      Ceases x t calls outer n
  /-- The task has ended. -/
  | dies : (x.state (n + 1)).core t = some ⟨.ended, [], []⟩ → Ceases x t calls outer n

theorem Ceases.length_le (h : x.Ceases t calls outer n) (hk : (x.state (n + 1)).core t = some k) :
    k.passes.length ≤ outer.length := by
  cases h with
  | ends p hafter =>
    obtain rfl := Option.some.inj (hk.symm.trans hafter)
    exact Nat.le_refl _
  | cut inner rest depth caller o _ hafter =>
    obtain rfl := Option.some.inj (hk.symm.trans hafter)
    exact (List.drop_sublist _ _).length_le
  | dies hafter =>
    obtain rfl := Option.some.inj (hk.symm.trans hafter)
    exact Nat.zero_le _

/-- Ending a delivery: it is the one that was begun last. -/
theorem Surrounds.closed (hx : x.IsOrderly) (h : x.Surrounds t b calls outer m n)
    (hclose : x.Closes t calls.length n) (hk' : (x.state (n + 1)).core t = some k')
    (hended' : k'.doing ≠ .ended) (hdepth : calls.length ≤ k'.calls.length) :
    x.Ceases t calls outer n := by
  obtain ⟨hturn, next, calls', passes, hk, hlength⟩ := hclose
  obtain ⟨k, hk₀, -, ⟨above, hcalls, -⟩, ps, hpasses⟩ := h.atop
  obtain rfl := Option.some.inj (hk.symm.trans hk₀)
  have hwhole : [] ++ calls' = above ++ calls := hcalls
  obtain ⟨-, rfl⟩ := List.append_inj' hwhole hlength
  obtain ⟨p, outer', rfl, hdepth'⟩ := (orderly hx n hk).of_endDelivery
  have hsame : outer'.length = outer.length := hdepth'.symm.trans (h.opens.outside hx).2
  have hsplit : [p] ++ outer' = (ps ++ [⟨b, x.listeners b m⟩]) ++ outer := by
    rw [List.append_assoc]
    exact hpasses
  obtain ⟨-, rfl⟩ := List.append_inj' hsplit hsame
  obtain rfl := Step.of_endDelivery hended' hdepth (Nat.le_of_eq hdepth') (step_of_turn hturn hk hk')
  exact .ends _ hk'

/-- **A delivery stays in progress until it is over.** -/
theorem Surrounds.succ (hx : x.IsOrderly) (h : x.Surrounds t b calls outer m n) :
    x.Surrounds t b calls outer m (n + 1) ∨ x.Ceases t calls outer n := by
  obtain ⟨k, hk, hended, ⟨above, hcalls, -⟩, -⟩ := h.atop
  obtain ⟨k', hk'⟩ := x.core_succ hk
  have hstays : k'.doing ≠ .ended → calls.length ≤ k'.calls.length → ¬ x.Closes t calls.length n →
      x.Surrounds t b calls outer m (n + 1) := by
    intro hended' hdepth hclose
    refine ⟨Nat.lt_succ_of_lt h.lt, h.opens, fun l hl hl' => ?_, fun l hl hl' => ?_⟩
    · rcases Nat.lt_or_eq_of_le hl' with hl' | rfl
      · exact h.uncut l hl (Nat.le_of_lt_succ hl')
      · exact ⟨k', hk', hended', hdepth⟩
    · rcases Nat.lt_or_eq_of_le (Nat.le_of_lt_succ hl') with hl' | rfl
      · exact h.unclosed l hl hl'
      · exact hclose
  rcases x.core_cases hk' with ⟨hturn, hsame⟩ | ⟨k₀, hturn, hk₀, hstep⟩ | ⟨hnone, -⟩ | ⟨hover, -⟩ |
    rfl
  · obtain rfl := Option.some.inj (hsame.symm.trans hk)
    refine .inl (hstays hended ?_ fun hclose => hturn hclose.1)
    rw [hcalls, List.length_append]
    exact Nat.le_add_left _ _
  · obtain rfl := Option.some.inj (hk.symm.trans hk₀)
    by_cases hended' : k'.doing = .ended
    · obtain ⟨hcalls', hpasses'⟩ := ((x.sound (n + 1)).neat t k' hk').ended hended'
      refine .inr (.dies ?_)
      rw [hk', ← hended', ← hcalls', ← hpasses']
    rcases Nat.lt_or_ge k'.calls.length calls.length with hless | hdepth
    · obtain ⟨inner, depth, caller, o, hinner, hafter⟩ := h.left hk hstep hended' hless
      exact .inr (.cut inner _ depth caller o hinner (hk'.trans (congrArg some hafter)))
    · by_cases hclose : x.Closes t calls.length n
      · exact .inr (h.closed hx hclose hk' hended' hdepth)
      · exact .inl (hstays hended' hdepth hclose)
  · cases hnone.symm.trans hk
  · obtain rfl := Option.some.inj (hover.symm.trans hk)
    exact absurd rfl hended
  · exact .inr (.dies hk')

/-! ### What is in progress, and what a task knows of it -/

/-- **The deliveries that a task has are in progress**, each within those after it. -/
theorem surrounds_of_passes (hx : x.IsOrderly) (hk : (x.state n).core t = some k) {ps : List Pass}
    {q : Pass} (hpasses : k.passes = ps ++ q :: outer) :
    ∃ m calls, x.Surrounds t q.bus calls outer m n ∧ q.set = x.listeners q.bus m := by
  have hnothing : ∀ {ps : List Pass}, [] ≠ ps ++ q :: outer :=
    fun h => List.append_ne_nil_of_right_ne_nil _ (List.cons_ne_nil q outer) h.symm
  induction n generalizing k ps with
  | zero =>
    obtain ⟨buses, memory, hstart⟩ := x.start
    rw [hstart] at hk
    rw [State.core_start hk] at hpasses
    exact absurd hpasses hnothing
  | succ n ih =>
    -- A delivery that was in progress before is so still, as the task has it still.
    have hstill : ∀ {k₀ : Core A} {ps₀ : List Pass}, (x.state n).core t = some k₀ →
        k₀.passes = ps₀ ++ q :: outer →
        ∃ m calls, x.Surrounds t q.bus calls outer m (n + 1) ∧ q.set = x.listeners q.bus m := by
      intro k₀ ps₀ hk₀ hpasses₀
      obtain ⟨m, calls, hsurrounds, hset⟩ := ih hk₀ hpasses₀
      rcases hsurrounds.succ hx with hnext | hceases
      · exact ⟨m, calls, hnext, hset⟩
      · have hless := hceases.length_le hk
        rw [hpasses, List.length_append, List.length_cons] at hless
        omega
    rcases x.core_cases hk with ⟨-, hsame⟩ | ⟨k₀, hturn, hk₀, hstep⟩ | ⟨-, job, rfl⟩ |
      ⟨-, p, calls, rfl, -⟩ | rfl
    · exact hstill hsame hpasses
    · rcases hstep.passes_cases with ⟨ended, hended⟩ | ⟨b, next, bs, hbefore, hbs, hwaiting, hafter⟩
      · rw [hpasses] at hended
        exact hstill hk₀ (hended.symm.trans (List.append_assoc _ _ _).symm)
      · rw [hafter] at hpasses
        cases ps with
        | cons p ps => exact hstill hk₀ (List.cons.inj hpasses).2
        | nil =>
          obtain ⟨rfl, rfl⟩ := List.cons.inj hpasses
          rw [hbefore] at hk₀
          rw [hafter] at hk
          have hbegins := begins_of_beginning hturn hk₀ hbs hwaiting hk
          have hopens : x.Opens t b k₀.calls k₀.passes n := ⟨hbegins, next, hk₀⟩
          exact ⟨n, k₀.calls, hopens.surrounds, (State.listenersOf_eq hbs).symm⟩
    · exact absurd hpasses hnothing
    · exact absurd hpasses hnothing
    · exact absurd hpasses hnothing

/-- **A task has exactly those deliveries that it is part of**, with the listeners that they began with. -/
theorem mem_passes_iff (hx : x.IsOrderly) (hk : (x.state n).core t = some k) {p : Pass} :
    p ∈ k.passes ↔ ∃ m, x.Encloses t p.bus m n ∧ p.set = x.listeners p.bus m := by
  constructor
  · intro hp
    obtain ⟨ps, outer, hpasses⟩ := List.append_of_mem hp
    obtain ⟨m, calls, hsurrounds, hset⟩ := surrounds_of_passes hx hk hpasses
    exact ⟨m, ⟨calls, outer, hsurrounds⟩, hset⟩
  · rintro ⟨m, ⟨calls, outer, hsurrounds⟩, hset⟩
    obtain ⟨ps, hpasses⟩ := hsurrounds.passes hk
    rw [hpasses, ← hset]
    exact List.mem_append_right ps List.mem_cons_self

theorem Encloses.mem_passes (h : x.Encloses t b m n) (hk : (x.state n).core t = some k) :
    ⟨b, x.listeners b m⟩ ∈ k.passes := by
  obtain ⟨calls, outer, hsurrounds⟩ := h
  obtain ⟨ps, hpasses⟩ := hsurrounds.passes hk
  rw [hpasses]
  exact List.mem_append_right ps List.mem_cons_self

theorem noneOn_iff (hx : x.IsOrderly) (hk : (x.state n).core t = some k) :
    NoneOn b k.passes ↔ ∀ m, ¬ x.Encloses t b m n := by
  constructor
  · intro hnone m henc
    exact hnone _ (henc.mem_passes hk) rfl
  · rintro hnone p hp rfl
    obtain ⟨m, henc, -⟩ := (mem_passes_iff hx hk).1 hp
    exact hnone m henc

/-- A task that is part of a delivery on a bus begins no other there. -/
theorem Encloses.unique (hx : x.IsOrderly) (h : x.Encloses t b m n) (h' : x.Encloses t b j n) :
    m = j := by
  have hfirst : ∀ {m j : Nat}, x.Encloses t b m n → x.Encloses t b j n → ¬ m < j := by
    rintro m j ⟨calls, outer, h⟩ ⟨calls', outer', h'⟩ hlt
    obtain ⟨next, hbefore⟩ := h'.opens.before
    have hwithin : x.Encloses t b m j := ⟨calls, outer, h.upTo hlt (Nat.le_of_lt h'.lt)⟩
    exact (h'.opens.outside hx).1 _ (hwithin.mem_passes hbefore) rfl
  exact Nat.le_antisymm (Nat.le_of_not_lt (hfirst h' h)) (Nat.le_of_not_lt (hfirst h h'))

/-- The listeners that a delivery began with are those of the bus. -/
theorem Encloses.listeners_eq (h : x.Encloses t b m n) : x.listeners b n = x.listeners b m := by
  obtain ⟨calls, outer, hsurrounds⟩ := h
  obtain ⟨k, hk, -⟩ := hsurrounds.atop
  have hcurrent := ((x.sound n).current t k hk).passes _ (Encloses.mem_passes ⟨_, _, hsurrounds⟩ hk)
  rw [listeners_def, hcurrent, Option.getD_some]

/-- **A task that is part of a delivery on a bus does not wait to read its listeners.** -/
theorem Encloses.not_wantsToRead (hx : x.IsOrderly) (h : x.Encloses t b m n)
    (hk : (x.state n).core t = some k) : ¬ k.doing.WantsToRead b := by
  intro hwants
  exact ((orderly hx n hk).of_wantsToRead hwants).1 _ (h.mem_passes hk) rfl

/-- **What surrounds a program surrounds all that it does**, unless it is about to end the delivery. -/
theorem Encloses.mono (h : x.Encloses t b m i) {doing : Doing A} {passes : List Pass}
    (hk : (x.state i).core t = some ⟨doing, calls, passes⟩) (hdepth : depthOf calls = passes.length)
    (hx : x.IsOrderly) (hij : i ≤ j) (huncut : x.Uncut t calls.length i j) :
    x.Encloses t b m j := by
  obtain ⟨calls₀, outer, hsurrounds⟩ := h
  -- The program was called from within the delivery.
  have hdeeper : calls₀.length < calls.length := by
    obtain ⟨k, hk₀, -, ⟨inner, hcalls, -⟩, ps, hpasses⟩ := hsurrounds.atop
    obtain rfl := Option.some.inj (hk.symm.trans hk₀)
    cases inner with
    | nil =>
      obtain rfl : calls = calls₀ := hcalls
      have hfewer := (hsurrounds.opens.outside hx).2.symm.trans hdepth
      rw [show passes = _ from hpasses, List.length_append, List.length_cons] at hfewer
      omega
    | cons f inner =>
      rw [show calls = _ from hcalls, List.length_append, List.length_cons]
      omega
  refine ⟨calls₀, outer, Nat.lt_of_lt_of_le hsurrounds.lt hij, hsurrounds.opens, ?_, ?_⟩
  · intro l hl hl'
    rcases Nat.le_total l i with hi | hi
    · exact hsurrounds.uncut l hl hi
    · obtain ⟨k, hk', hended, hle⟩ := huncut l hi hl'
      exact ⟨k, hk', hended, Nat.le_trans (Nat.le_of_lt hdeeper) hle⟩
  · intro l hl hl' hclose
    rcases Nat.lt_or_ge l i with hi | hi
    · exact hsurrounds.unclosed l hl hi hclose
    · obtain ⟨-, next, calls', passes', hk', hlength⟩ := hclose
      obtain ⟨k, hk'', -, hle⟩ := huncut l hi (Nat.le_of_lt hl')
      obtain rfl := Option.some.inj (hk'.symm.trans hk'')
      exact absurd hlength (Nat.ne_of_gt (Nat.lt_of_lt_of_le hdeeper hle))

end Execution

end Orchestra.Machine
