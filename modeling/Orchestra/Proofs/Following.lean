import Orchestra.Proofs.Execution

/-!
# Following one task

Between two steps of a task any number of steps of other tasks may happen, and a call that it makes may
do anything before it returns.

* `filterMap_steps_trans` — what some steps yield, up to a moment and from then on;
* `Execution.Uncut` — a task has neither ended nor left any of the calls around it;
* `Execution.heard` — whom a task calls, from within so many calls and no more;
* `Execution.first_turn` — a task stays as it is up to its next step;
* `Step.atop` — what a task does on top of calls and deliveries stays on top of them;
* `Step.inside` — what a called body does, it does on top of the caller's calls and deliveries;
* `Execution.call_followed` — a call is still in progress, or the caller goes on after it.
-/

namespace Orchestra.Machine

variable {A : Application}

/-! ### What some steps yield -/

section Steps

variable {β : Type} {f : Nat → Option β} {i j m : Nat}

/-- What is yielded between two moments is yielded up to a moment in between, and from then on. -/
theorem filterMap_steps_trans (hi : i ≤ m) (hj : m ≤ j) : (List.range' i (j - i)).filterMap f
    = (List.range' i (m - i)).filterMap f ++ (List.range' m (j - m)).filterMap f := by
  have hlength : j - i = (m - i) + (j - m) := by omega
  have hmid : i + 1 * (m - i) = m := by omega
  rw [hlength, ← List.range'_append, hmid, List.filterMap_append]

theorem filterMap_steps_succ (n : Nat) : (List.range' n (n + 1 - n)).filterMap f = (f n).toList := by
  rw [Nat.add_sub_cancel_left, List.range'_one]
  cases h : f n <;> simp [h]

theorem filterMap_steps_eq_nil_iff :
    (List.range' i (j - i)).filterMap f = [] ↔ ∀ n, i ≤ n → n < j → f n = none := by
  rw [List.filterMap_eq_nil_iff]
  refine ⟨fun h n hi hj => h n (List.mem_range'_1.2 ⟨hi, by omega⟩), fun h n hn => ?_⟩
  obtain ⟨hi, hj⟩ := List.mem_range'_1.1 hn
  exact h n hi (by omega)

end Steps

namespace Execution

variable {w : World A} (x : Execution w) (t : TaskId)

/-- Task `t` has neither ended nor left any of the `d` outermost calls, from `i` to `j`. -/
def Uncut (d i j : Nat) : Prop :=
  ∀ n, i ≤ n → n ≤ j → ∃ k, (x.state n).core t = some k ∧ k.doing ≠ .ended ∧ d ≤ k.calls.length

/-- Whom task `t` calls in the step after `n` steps, from within `d` calls. -/
def callAt (d n : Nat) : Option Callee :=
  match x.turn n, (x.state n).core t with
  | some u, some ⟨.running (.perform (.call callee _) _), calls, _⟩ =>
    if u = t ∧ calls.length = d then some callee else none
  | _, _ => none

/-- Whom task `t` calls in the steps from `i` to `j`, from within `d` calls. -/
def heard (d i j : Nat) : List Callee := (List.range' i (j - i)).filterMap (x.callAt t d)

/-- Delivery `p` of task `t` is in progress from `i` to `j`. -/
def Holds (p : Pass) (i j : Nat) : Prop :=
  ∀ n, i ≤ n → n ≤ j → ∃ k, (x.state n).core t = some k ∧ p ∈ k.passes

variable {x t} {d i j m n : Nat} {k k' : Core A} {p : Pass}

/-! ### Intervals -/

theorem Uncut.mono (h : x.Uncut t d i j) (hi : i ≤ m) (hj : n ≤ j) : x.Uncut t d m n :=
  fun l hl hl' => h l (Nat.le_trans hi hl) (Nat.le_trans hl' hj)

theorem Uncut.tail (h : x.Uncut t d i j) (hi : i ≤ m) : x.Uncut t d m j :=
  h.mono hi (Nat.le_refl j)

theorem Uncut.trans (h : x.Uncut t d i m) (h' : x.Uncut t d m j) : x.Uncut t d i j := by
  intro n hi hj
  rcases Nat.le_total n m with hn | hn
  · exact h n hi hn
  · exact h' n hn hj

@[simp] theorem heard_self (i : Nat) : x.heard t d i i = [] := by
  rw [heard, Nat.sub_self]
  rfl

theorem heard_trans (hi : i ≤ m) (hj : m ≤ j) :
    x.heard t d i j = x.heard t d i m ++ x.heard t d m j :=
  filterMap_steps_trans hi hj

theorem heard_succ (n : Nat) : x.heard t d n (n + 1) = (x.callAt t d n).toList := filterMap_steps_succ n

theorem heard_eq_nil (h : ∀ n, i ≤ n → n < j → x.callAt t d n = none) : x.heard t d i j = [] :=
  filterMap_steps_eq_nil_iff.2 h

theorem callAt_of_turn_ne (h : x.turn n ≠ some t) : x.callAt t d n = none := by
  unfold callAt
  split
  · next u _ _ _ _ _ hturn _ =>
    rw [if_neg]
    intro hyp
    obtain ⟨rfl, -⟩ := hyp
    exact h hturn
  · rfl

/-- A task that is not running within `d` calls exactly calls nobody from there. -/
theorem callAt_of_core (hk : (x.state n).core t = some k)
    (h : ∀ callee limit next, k.doing = .running (.perform (.call callee limit) next) →
      k.calls.length ≠ d) : x.callAt t d n = none := by
  unfold callAt
  split
  · next u callee limit next calls passes _ hcore =>
    rw [if_neg]
    intro hyp
    obtain ⟨-, hlength⟩ := hyp
    obtain rfl := Option.some.inj (hk.symm.trans hcore)
    exact h callee limit next rfl hlength
  · rfl

theorem callAt_of_call {callee : Callee} {limit : Option Duration}
    {next : Outcome → Program A Outcome} {calls : Calls A} {passes : List Pass}
    (hturn : x.turn n = some t)
    (hk : (x.state n).core t = some ⟨.running (.perform (.call callee limit) next), calls, passes⟩) :
    x.callAt t calls.length n = some callee := by
  rw [callAt, hturn, hk]
  exact if_pos ⟨rfl, rfl⟩

theorem Holds.trans (h : x.Holds t p i m) (h' : x.Holds t p m j) : x.Holds t p i j := by
  intro n hi hj
  rcases Nat.le_total n m with hn | hn
  · exact h n hi hn
  · exact h' n hn hj

theorem Holds.of_core (hk : (x.state n).core t = some k) (hp : p ∈ k.passes) :
    x.Holds t p n n := by
  intro m hm hm'
  obtain rfl := Nat.le_antisymm hm hm'
  exact ⟨k, hk, hp⟩

theorem Holds.succ (h : x.Holds t p i n) (hk : (x.state (n + 1)).core t = some k)
    (hp : p ∈ k.passes) : x.Holds t p i (n + 1) := by
  intro m hi hm
  rcases Nat.lt_or_eq_of_le hm with hm | rfl
  · exact h m hi (Nat.le_of_lt_succ hm)
  · exact ⟨k, hk, hp⟩

/-! ### One step -/

/-- Where it is not a task's turn, the task stays as it is, or ends, or has ended. -/
theorem same_of_turn_ne (hturn : x.turn n ≠ some t) (hk : (x.state n).core t = some k)
    (hended : k.doing ≠ .ended) (hk' : (x.state (n + 1)).core t = some k')
    (hended' : k'.doing ≠ .ended) : k' = k := by
  rcases x.core_cases hk' with ⟨-, hsame⟩ | ⟨_, hturn', -⟩ | ⟨hnone, -⟩ | ⟨hover, -⟩ | rfl
  · exact Option.some.inj (hsame.symm.trans hk)
  · exact absurd hturn' hturn
  · cases hnone.symm.trans hk
  · obtain rfl := Option.some.inj (hover.symm.trans hk)
    exact absurd rfl hended
  · exact absurd rfl hended'

/-- Task `t` stays as it is from `i` to `j`, and so calls nobody. -/
structure Rests (x : Execution w) (t : TaskId) (k : Core A) (i j : Nat) : Prop where
  core : ∀ n, i ≤ n → n ≤ j → (x.state n).core t = some k
  heard : ∀ d, x.heard t d i j = []

/-- After `n` steps task `t`, which has stayed as it was since `i`, takes a step and is not cut off. -/
structure Acts (x : Execution w) (t : TaskId) (d : Nat) (k : Core A) (i n : Nat) (k' : Core A) :
    Prop where
  le : i ≤ n
  rests : x.Rests t k i n
  turn : x.turn n = some t
  after : (x.state (n + 1)).core t = some k'
  step : Step w t (x.state n).bus k (x.state (n + 1)).bus k'
  goesOn : k'.doing ≠ .ended
  depth : d ≤ k'.calls.length

/-- **A task stays as it is up to its next step.** -/
theorem first_turn (huncut : x.Uncut t d i j) (hij : i ≤ j) (hk : (x.state i).core t = some k) :
    x.Rests t k i j ∨ ∃ n k', n < j ∧ x.Acts t d k i n k' := by
  induction hij with
  | refl =>
    refine .inl ⟨fun n hi hj => ?_, fun d => heard_self i⟩
    rw [Nat.le_antisymm hj hi, hk]
  | @step j hij ih =>
    rcases ih (huncut.mono (Nat.le_refl i) (Nat.le_succ j)) with hrests | ⟨n, k', hn, hacts⟩
    · obtain ⟨c, hc, hended, -⟩ := huncut j hij (Nat.le_succ j)
      obtain rfl := Option.some.inj (hc.symm.trans (hrests.core j hij (Nat.le_refl j)))
      obtain ⟨k', hk', hended', hdepth⟩ := huncut (j + 1) (Nat.le_succ_of_le hij) (Nat.le_refl _)
      by_cases hturn : x.turn j = some t
      · exact .inr ⟨j, k', Nat.lt_succ_self j, hij, hrests, hturn, hk', step_of_turn hturn hc hk',
          hended', hdepth⟩
      · obtain rfl := same_of_turn_ne hturn hc hended hk' hended'
        refine .inl ⟨fun n hi hn => ?_, fun d => ?_⟩
        · rcases Nat.lt_or_eq_of_le hn with hn | rfl
          · exact hrests.core n hi (Nat.le_of_lt_succ hn)
          · exact hk'
        · rw [heard_trans hij (Nat.le_succ j), hrests.heard, heard_succ, callAt_of_turn_ne hturn]
          rfl
    · exact .inr ⟨n, k', Nat.lt_succ_of_lt hn, hacts⟩

theorem Rests.last (h : x.Rests t k i j) (hij : i ≤ j) : (x.state j).core t = some k :=
  h.core j hij (Nat.le_refl j)

theorem Rests.holds (h : x.Rests t k i j) (hp : p ∈ k.passes) : x.Holds t p i j :=
  fun n hi hj => ⟨k, h.core n hi hj, hp⟩

theorem Acts.before (h : x.Acts t d k i n k') : (x.state n).core t = some k :=
  h.rests.last h.le

theorem Acts.heard (h : x.Acts t d k i n k') {d' : Nat} :
    x.heard t d' i (n + 1) = (x.callAt t d' n).toList := by
  rw [heard_trans h.le (Nat.le_succ n), h.rests.heard, heard_succ, List.nil_append]

theorem Acts.holds (h : x.Acts t d k i n k') (hp : p ∈ k.passes) (hp' : p ∈ k'.passes) :
    x.Holds t p i (n + 1) :=
  (h.rests.holds hp).succ h.after hp'

end Execution

/-! ### The next step of a task that is not cut off -/

section Next

variable {w : World A} {t : TaskId} {g g' : Buses} {k' : Core A} {b : BusId} {calls : Calls A}
  {passes : List Pass}

theorem not_shorter {inner rest : Calls A} {f : Nat × (Outcome → Program A Outcome)} :
    ¬ (inner ++ f :: rest).length ≤ rest.length := by
  rw [List.length_append, List.length_cons]
  omega

variable (hended : k'.doing ≠ .ended) (hdepth : calls.length ≤ k'.calls.length)
include hended hdepth

theorem Step.of_record {r : Record} {next : Unit → Program A Outcome}
    (h : Step w t g ⟨.running (.perform (.record r) next), calls, passes⟩ g' k') :
    k' = ⟨.running (next ()), calls, passes⟩ := by
  cases h with
  | goes _ _ _ _ hop => exact (hop _ _ rfl).elim
  | records => rfl
  | leaves => exact absurd hdepth not_shorter
  | finishes => exact absurd rfl hended

theorem Step.of_enclosing {next : Option (List ListenerId) → Program A Outcome}
    (h : Step w t g ⟨.running (.perform (.enclosing b) next), calls, passes⟩ g' k') :
    k' = ⟨.running (next ((passes.find? fun p => p.bus = b).map Pass.set)), calls, passes⟩ := by
  cases h with
  | goes _ _ _ _ hop => exact (hop _ _ rfl).elim
  | looks => rfl
  | leaves => exact absurd hdepth not_shorter
  | finishes => exact absurd rfl hended

theorem Step.of_call {callee : Callee} {limit : Option Duration}
    {next : Outcome → Program A Outcome}
    (h : Step w t g ⟨.running (.perform (.call callee limit) next), calls, passes⟩ g' k') :
    k' = ⟨.running (w.body callee), (passes.length, next) :: calls, passes⟩ := by
  cases h with
  | goes _ _ _ _ hop => exact (hop _ _ rfl).elim
  | enters => rfl
  | leaves => exact absurd hdepth not_shorter
  | finishes => exact absurd rfl hended

theorem Step.of_beginDelivery {next : List ListenerId → Program A Outcome}
    (h : Step w t g ⟨.running (.perform (.beginDelivery b) next), calls, passes⟩ g' k') :
    k' = ⟨.waiting (.beginning b next), calls, passes⟩ := by
  cases h with
  | goes _ _ _ _ hop => exact (hop _ _ rfl).elim
  | wantsToBegin => rfl
  | leaves => exact absurd hdepth not_shorter
  | finishes => exact absurd rfl hended

theorem Step.of_beginning {next : List ListenerId → Program A Outcome}
    (h : Step w t g ⟨.waiting (.beginning b next), calls, passes⟩ g' k') :
    ∃ bs, g b = some bs ∧ bs.lock.isWaiting t = false ∧
      k' = ⟨.running (next bs.listeners), calls, ⟨b, bs.listeners⟩ :: passes⟩ := by
  cases h with
  | goes hclaim => cases hclaim
  | begins hbs hwaiting => exact ⟨_, hbs, hwaiting, rfl⟩
  | leaves => exact absurd hdepth not_shorter
  | finishes => exact absurd rfl hended

theorem Step.of_listeners {next : List ListenerId → Program A Outcome}
    (h : Step w t g ⟨.running (.perform (.listeners b) next), calls, passes⟩ g' k') :
    k' = ⟨.waiting (.reading b next), calls, passes⟩ := by
  cases h with
  | goes _ _ _ _ hop => exact (hop _ _ rfl).elim
  | wantsToRead => rfl
  | leaves => exact absurd hdepth not_shorter
  | finishes => exact absurd rfl hended

theorem Step.of_reading {next : List ListenerId → Program A Outcome}
    (h : Step w t g ⟨.waiting (.reading b next), calls, passes⟩ g' k') :
    ∃ bs, g b = some bs ∧ bs.lock.isWaiting t = false ∧
      k' = ⟨.running (next bs.listeners), calls, passes⟩ := by
  cases h with
  | goes hclaim => cases hclaim
  | reads hbs hwaiting => exact ⟨_, hbs, hwaiting, rfl⟩
  | leaves => exact absurd hdepth not_shorter
  | finishes => exact absurd rfl hended

theorem Step.of_endDelivery {next : Unit → Program A Outcome} {p : Pass}
    (hpasses : depthOf calls ≤ passes.length)
    (h : Step w t g ⟨.running (.perform .endDelivery next), calls, p :: passes⟩ g' k') :
    k' = ⟨.running (next ()), calls, passes⟩ := by
  cases h with
  | goes _ _ _ _ hop => exact (hop _ _ rfl).elim
  | ends => rfl
  | endsNothing hless =>
    rw [List.length_cons] at hless
    omega
  | leaves => exact absurd hdepth not_shorter
  | finishes => exact absurd rfl hended

theorem Step.of_edit {e : Edit} {next : Bool → Program A Outcome}
    (h : Step w t g ⟨.running (.perform (.edit b e) next), calls, passes⟩ g' k') :
    k' = ⟨.waiting (.editing b e next), calls, passes⟩ := by
  cases h with
  | goes _ _ _ _ hop => exact (hop _ _ rfl).elim
  | wantsToEdit => rfl
  | leaves => exact absurd hdepth not_shorter
  | finishes => exact absurd rfl hended

theorem Step.of_editing {e : Edit} {next : Bool → Program A Outcome}
    (h : Step w t g ⟨.waiting (.editing b e next), calls, passes⟩ g' k') :
    ∃ copy, k' = ⟨.waiting (.replacing b e copy next), calls, passes⟩ := by
  cases h with
  | goes hclaim => cases hclaim
  | copies => exact ⟨_, rfl⟩
  | leaves => exact absurd hdepth not_shorter
  | finishes => exact absurd rfl hended

theorem Step.of_replacing {e : Edit} {copy : List ListenerId} {next : Bool → Program A Outcome}
    (h : Step w t g ⟨.waiting (.replacing b e copy next), calls, passes⟩ g' k') :
    k' = ⟨.running (next (e.changes copy)), calls, passes⟩ := by
  cases h with
  | goes hclaim => cases hclaim
  | replaces => rfl
  | leaves => exact absurd hdepth not_shorter
  | finishes => exact absurd rfl hended

end Next

/-! ### Calls -/

/-- A task does what it does on top of some calls and deliveries. -/
structure Atop (calls : Calls A) (passes : List Pass) (k : Core A) : Prop where
  calls : ∃ inner : Calls A, k.calls = inner ++ calls ∧ ∀ f ∈ inner, passes.length ≤ f.1
  passes : ∃ inner, k.passes = inner ++ passes

/-- A task is inside a call, on top of the calls and deliveries of the caller. -/
abbrev Inside (next : Outcome → Program A Outcome) (calls : Calls A) (passes : List Pass)
    (k : Core A) : Prop :=
  Atop ((passes.length, next) :: calls) passes k

section Atop

variable {w : World A} {t : TaskId} {g g' : Buses} {k k' : Core A} {calls : Calls A}
  {passes : List Pass}

/-- Leaving a call: it is one on top, or one of those below. -/
theorem leaves_cases {inner' inner rest : Calls A} {f : Nat × (Outcome → Program A Outcome)}
    (h : inner' ++ f :: rest = inner ++ calls) :
    (∃ before after, inner = before ++ f :: after ∧ rest = after ++ calls) ∨
      rest.length < calls.length := by
  rcases List.append_eq_append_iff.1 h with ⟨as, hinner, has⟩ | ⟨as, -, has⟩
  · cases as with
    | nil =>
      obtain rfl : f :: rest = calls := has
      exact .inr (Nat.lt_succ_self _)
    | cons a as =>
      obtain ⟨rfl, hrest⟩ := List.cons.inj has
      exact .inl ⟨inner', as, hinner, hrest⟩
  · refine .inr ?_
    rw [has, List.length_append, List.length_cons]
    omega

/-- **What a task does on top of calls and deliveries stays on top of them**, unless one of the calls is
left, or the innermost of the deliveries is ended by the call that has begun it. -/
theorem Step.atop (hstep : Step w t g k g' k') (h : Atop calls passes k)
    (hended : k'.doing ≠ .ended) (hdepth : calls.length ≤ k'.calls.length) :
    Atop calls passes k' ∨ depthOf calls < passes.length ∧
      ∃ next, k = ⟨.running (.perform .endDelivery next), calls, passes⟩ := by
  obtain ⟨⟨inner, hcalls, hinner⟩, ps, hpasses⟩ := h
  cases hstep with
  | goes => exact .inl ⟨⟨inner, hcalls, hinner⟩, ps, hpasses⟩
  | records => exact .inl ⟨⟨inner, hcalls, hinner⟩, ps, hpasses⟩
  | looks => exact .inl ⟨⟨inner, hcalls, hinner⟩, ps, hpasses⟩
  | wantsToBegin => exact .inl ⟨⟨inner, hcalls, hinner⟩, ps, hpasses⟩
  | wantsToRead => exact .inl ⟨⟨inner, hcalls, hinner⟩, ps, hpasses⟩
  | wantsToEdit => exact .inl ⟨⟨inner, hcalls, hinner⟩, ps, hpasses⟩
  | reads => exact .inl ⟨⟨inner, hcalls, hinner⟩, ps, hpasses⟩
  | copies => exact .inl ⟨⟨inner, hcalls, hinner⟩, ps, hpasses⟩
  | replaces => exact .inl ⟨⟨inner, hcalls, hinner⟩, ps, hpasses⟩
  | endsNothing => exact .inl ⟨⟨inner, hcalls, hinner⟩, ps, hpasses⟩
  | finishes => exact absurd rfl hended
  | begins => exact .inl ⟨⟨inner, hcalls, hinner⟩, _ :: ps, congrArg _ hpasses⟩
  | @enters callee limit next calls₁ passes₁ =>
    refine .inl ⟨⟨(passes₁.length, next) :: inner, congrArg _ hcalls, fun f hf => ?_⟩, ps, hpasses⟩
    rcases List.mem_cons.1 hf with rfl | hf
    · have hlength : passes₁.length = (ps ++ passes).length := congrArg List.length hpasses
      rw [hlength, List.length_append]
      exact Nat.le_add_left _ _
    · exact hinner f hf
  | @ends next p calls₁ passes₁ hle =>
    have hcalls' : calls₁ = inner ++ calls := hcalls
    cases ps with
    | cons q ps => exact .inl ⟨⟨inner, hcalls, hinner⟩, ps, (List.cons.inj hpasses).2⟩
    | nil =>
      obtain rfl : p :: passes₁ = passes := hpasses
      rw [hcalls'] at hle
      cases inner with
      | nil => exact .inr ⟨Nat.lt_succ_of_le hle, next, by rw [hcalls', List.nil_append]⟩
      | cons f inner =>
        -- A call on top was made when the deliveries were in progress.
        have hfirst : (p :: passes₁).length ≤ f.1 := hinner f List.mem_cons_self
        have hle' : f.1 ≤ passes₁.length := hle
        rw [List.length_cons] at hfirst
        omega
  | @leaves doing depth caller inner' rest passes₁ o =>
    have hpasses' : passes₁ = ps ++ passes := hpasses
    rcases leaves_cases hcalls with ⟨before, after, hsplit, hrest⟩ | hless
    · have hfirst := hinner (depth, caller) (by rw [hsplit]; simp)
      refine .inl ⟨⟨after, hrest, fun f hf => hinner f ?_⟩,
        ps.drop (passes₁.length - depth), ?_⟩
      · rw [hsplit]
        exact List.mem_append_right _ (List.mem_cons_of_mem _ hf)
      · show passes₁.drop (passes₁.length - depth) = _
        rw [← List.drop_append_of_le_length, ← hpasses']
        rw [hpasses', List.length_append]
        dsimp only at hfirst
        omega
    · exact absurd hdepth (Nat.not_le_of_lt hless)

/-- A step after which there are fewer calls leaves one of them. -/
theorem Step.left (hstep : Step w t g k g' k') (hended : k'.doing ≠ .ended)
    (hless : k'.calls.length < k.calls.length) :
    ∃ inner depth caller o, k.calls = inner ++ (depth, caller) :: k'.calls ∧
      k' = ⟨.running (caller o), k'.calls, k.passes.drop (k.passes.length - depth)⟩ := by
  cases hstep with
  | leaves o => exact ⟨_, _, _, o, rfl, rfl⟩
  | finishes => exact absurd rfl hended
  | enters => exact absurd hless (Nat.not_lt_of_lt (Nat.lt_succ_self _))
  | _ => exact absurd hless (Nat.lt_irrefl _)

/-- **What a called body does, it does on top of the caller's calls and deliveries**, until the caller
goes on. -/
theorem Step.inside {next : Outcome → Program A Outcome} (hstep : Step w t g k g' k')
    (h : Inside next calls passes k) (hended : k'.doing ≠ .ended)
    (hdepth : calls.length ≤ k'.calls.length) :
    Inside next calls passes k' ∨ ∃ o, k' = ⟨.running (next o), calls, passes⟩ := by
  rcases Nat.lt_or_eq_of_le hdepth with hdeeper | hlevel
  · rcases hstep.atop h hended hdeeper with hatop | ⟨hless, -⟩
    · exact .inl hatop
    · exact absurd hless (Nat.lt_irrefl _)
  · obtain ⟨⟨inner, hcalls, -⟩, ps, hpasses⟩ := h
    have hfewer : k'.calls.length < k.calls.length := by
      rw [hcalls, ← hlevel, List.length_append, List.length_cons]
      omega
    obtain ⟨inner', depth, caller, o, hcalls', hk'⟩ := hstep.left hended hfewer
    obtain ⟨-, hframe⟩ := List.append_inj' (hcalls'.symm.trans hcalls) (by simp [hlevel])
    obtain ⟨heq, hrest⟩ := List.cons.inj hframe
    obtain ⟨rfl, rfl⟩ := Prod.mk.inj heq
    refine .inr ⟨o, ?_⟩
    rw [hk', hrest, hpasses, List.length_append, Nat.add_sub_cancel, List.drop_left]

end Atop

namespace Execution

variable {w : World A} {x : Execution w} {t : TaskId} {d i j m n : Nat} {k : Core A}
  {passes : List Pass} {callees callees' : List Callee}

/-- From `i` to `j` task `t` calls some bodies from within `d` calls, and some deliveries of it are in
progress. -/
structure Spends (x : Execution w) (t : TaskId) (d : Nat) (passes : List Pass)
    (callees : List Callee) (i j : Nat) : Prop where
  le : i ≤ j
  heard : x.heard t d i j = callees
  holds : ∀ p ∈ passes, x.Holds t p i j

theorem Spends.trans (h : x.Spends t d passes callees i m) (h' : x.Spends t d passes callees' m j) :
    x.Spends t d passes (callees ++ callees') i j where
  le := Nat.le_trans h.le h'.le
  heard := by rw [heard_trans h.le h'.le, h.heard, h'.heard]
  holds p hp := (h.holds p hp).trans (h'.holds p hp)

theorem Rests.spends (h : x.Rests t k i j) (hij : i ≤ j) : x.Spends t d k.passes [] i j :=
  ⟨hij, h.heard d, fun _ hp => h.holds hp⟩

/-- One step, after which the same deliveries are in progress. -/
theorem Acts.spends {k' : Core A} (h : x.Acts t d k i n k') (hpasses : ∀ p ∈ k.passes, p ∈ k'.passes) :
    x.Spends t d k.passes (x.callAt t d n).toList i (n + 1) :=
  ⟨Nat.le_succ_of_le h.le, h.heard, fun p hp => h.holds hp (hpasses p hp)⟩

/-- One step that calls nobody. -/
theorem Acts.spends_nothing {k' : Core A} (h : x.Acts t d k i n k')
    (hcall : ∀ callee limit next, k.doing ≠ .running (.perform (.call callee limit) next))
    (hpasses : ∀ p ∈ k.passes, p ∈ k'.passes) : x.Spends t d k.passes [] i (n + 1) := by
  have hspends := h.spends hpasses
  rwa [callAt_of_core h.before fun callee limit next heq => absurd heq (hcall callee limit next)]
    at hspends

theorem Spends.step {k' : Core A} (hk : (x.state n).core t = some k)
    (hk' : (x.state (n + 1)).core t = some k') (hcall : x.callAt t d n = none)
    (hp : ∀ p ∈ passes, p ∈ k.passes) (hp' : ∀ p ∈ passes, p ∈ k'.passes) :
    x.Spends t d passes [] n (n + 1) where
  le := Nat.le_succ n
  heard := by rw [heard_succ, hcall]; rfl
  holds p hmem := (Holds.of_core hk (hp p hmem)).succ hk' (hp' p hmem)

section Call

variable {next : Outcome → Program A Outcome} {calls : Calls A}

theorem callAt_of_inside (hk : (x.state n).core t = some k) (h : Inside next calls passes k) :
    x.callAt t calls.length n = none := by
  refine callAt_of_core hk fun callee limit next _ hlength => ?_
  obtain ⟨inner, hcalls, -⟩ := h.calls
  rw [hcalls, List.length_append, List.length_cons] at hlength
  omega

/-- A task inside a call is still there later, or the caller goes on. -/
theorem inside_followed (huncut : x.Uncut t calls.length i j) (hij : i ≤ j)
    (hk : (x.state i).core t = some k) (h : Inside next calls passes k) :
    (∃ k', (x.state j).core t = some k' ∧ Inside next calls passes k') ∧
        x.Spends t calls.length passes [] i j ∨
      ∃ r o, r ≤ j ∧ (x.state r).core t = some ⟨.running (next o), calls, passes⟩ ∧
        x.Spends t calls.length passes [] i r := by
  have hpasses : ∀ {k : Core A}, Inside next calls passes k → ∀ p ∈ passes, p ∈ k.passes := by
    intro k h p hp
    obtain ⟨inner, hinner⟩ := h.passes
    rw [hinner]
    exact List.mem_append_right _ hp
  induction hij with
  | refl =>
    exact .inl ⟨⟨k, hk, h⟩, Nat.le_refl i, heard_self i, fun p hp => Holds.of_core hk (hpasses h p hp)⟩
  | @step j hij ih =>
    rcases ih (huncut.mono (Nat.le_refl i) (Nat.le_succ j)) with
      ⟨⟨c, hc, hinside⟩, hspends⟩ | ⟨r, o, hr, hback, hspends⟩
    · obtain ⟨c', hc', hended', hdepth⟩ := huncut (j + 1) (Nat.le_succ_of_le hij) (Nat.le_refl _)
      have hcall := callAt_of_inside hc hinside
      have hnext : Inside next calls passes c' ∨ ∃ o, c' = ⟨.running (next o), calls, passes⟩ := by
        by_cases hturn : x.turn j = some t
        · exact (step_of_turn hturn hc hc').inside hinside hended' hdepth
        · obtain ⟨c₀, hc₀, hended, -⟩ := huncut j hij (Nat.le_succ j)
          obtain rfl := Option.some.inj (hc.symm.trans hc₀)
          obtain rfl := same_of_turn_ne hturn hc hended hc' hended'
          exact .inl hinside
      rcases hnext with hinside' | ⟨o, rfl⟩
      · have hstep := Spends.step hc hc' hcall (hpasses hinside) (hpasses hinside')
        exact .inl ⟨⟨c', hc', hinside'⟩, hspends.trans hstep⟩
      · have hstep := Spends.step hc hc' hcall (hpasses hinside) fun p hp => hp
        exact .inr ⟨j + 1, o, Nat.le_refl _, hc', hspends.trans hstep⟩
    · exact .inr ⟨r, o, Nat.le_succ_of_le hr, hback, hspends⟩

/-- **A call is still in progress, or the caller goes on after it**; the body is called once, and the
caller's deliveries stay in progress. -/
theorem call_followed {callee : Callee} {limit : Option Duration}
    (huncut : x.Uncut t calls.length i j) (hij : i ≤ j)
    (hk : (x.state i).core t = some ⟨.running (.perform (.call callee limit) next), calls, passes⟩) :
    (∃ callees, callees <+: [callee] ∧ x.Spends t calls.length passes callees i j) ∨
      ∃ r o, r ≤ j ∧ (x.state r).core t = some ⟨.running (next o), calls, passes⟩ ∧
        x.Spends t calls.length passes [callee] i r := by
  rcases first_turn huncut hij hk with hrests | ⟨n, k', hn, hacts⟩
  · exact .inl ⟨[], List.nil_prefix, hrests.spends hij⟩
  · obtain rfl := Step.of_call hacts.goesOn hacts.depth hacts.step
    have hfirst := hacts.spends fun p hp => hp
    rw [callAt_of_call hacts.turn hacts.before] at hfirst
    have hinside : Inside next calls passes ⟨.running (w.body callee), (passes.length, next) :: calls,
        passes⟩ :=
      ⟨⟨[], rfl, fun f hf => (nomatch hf)⟩, [], rfl⟩
    rcases inside_followed (huncut.tail (Nat.le_succ_of_le hacts.le)) hn hacts.after
        hinside with ⟨-, hrest⟩ | ⟨r, o, hr, hback, hrest⟩
    · exact .inl ⟨[callee], List.prefix_refl _, hfirst.trans hrest⟩
    · exact .inr ⟨r, o, hr, hback, hfirst.trans hrest⟩

end Call

/-- A record is still to be made, or the task goes on after it. -/
theorem record_followed {r : Record} {next : Unit → Program A Outcome} {calls : Calls A}
    (huncut : x.Uncut t calls.length i j) (hij : i ≤ j)
    (hk : (x.state i).core t = some ⟨.running (.perform (.record r) next), calls, passes⟩) :
    (x.state j).core t = some ⟨.running (.perform (.record r) next), calls, passes⟩ ∧
        x.Spends t calls.length passes [] i j ∨
      ∃ n, n ≤ j ∧ (x.state n).core t = some ⟨.running (next ()), calls, passes⟩ ∧
        x.Spends t calls.length passes [] i n := by
  rcases first_turn huncut hij hk with hrests | ⟨n, k', hn, hacts⟩
  · exact .inl ⟨hrests.last hij, hrests.spends hij⟩
  · obtain rfl := Step.of_record hacts.goesOn hacts.depth hacts.step
    exact .inr ⟨n + 1, hn, hacts.after, hacts.spends_nothing nofun fun p hp => hp⟩

end Execution

end Orchestra.Machine
