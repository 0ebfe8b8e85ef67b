import Orchestra.Proofs.Changing
import Orchestra.Proofs.Limits

/-!
# What becomes of a call

A call is over when the body has come to its end, or panics, or when the task waits past the limit.  Which
of these it is shows in the step with which the call is left, and the caller is told.

* `Fate`, `Fate.outcome` — the ways in which a call ends, and what the caller is told;
* `Execution.Explains` — what a fate says about the steps of the call;
* `Execution.stays_done` — a body that has come to its end asks for nothing more;
* `Execution.Awaits.fate` — whoever goes on after a call goes on with the outcome of its fate.
-/

namespace Orchestra

variable {A : Application}

/-- What becomes of a call. -/
inductive Fate where
  | returned
  /-- The body comes to its end with a failure to report, as hooks may. -/
  | reported (failure : HookFailure)
  | panicked (payload : Payload)
  /-- The body has not come to its end within the limit. -/
  | outlasted (limit : Duration)
  deriving DecidableEq, Repr, Inhabited

namespace Fate

/-- The failure that the caller is told, if any. -/
def failure? : Fate → Option HookFailure
  | returned => none
  | reported e => some e
  | panicked payload => some (.panicked payload.message)
  | outlasted limit => some (.timedOut limit)

/-- What the caller is told. -/
def outcome (f : Fate) : Outcome :=
  match f.failure? with
  | none => .ok ()
  | some e => .error e

end Fate

namespace Machine.Execution

variable {w : World A}

/-- After `n` steps task `t`, which called a body with the step after `m` steps from within `calls`, has
come to the end of that body with an outcome. -/
def Completes (x : Execution w) (t : TaskId) (calls : Calls A) (callee : Callee) (o : Outcome)
    (m n : Nat) : Prop :=
  ∃ tr frame passes l, (w.body callee).Run tr o ∧ x.Through t (frame :: calls) tr (m + 1) l ∧ l ≤ n ∧
    (x.state n).core t = some ⟨.running (.done o), frame :: calls, passes⟩

/-- After `n` steps the body that task `t` called with the step after `m` steps panics. -/
def Panics (x : Execution w) (t : TaskId) (calls : Calls A) (callee : Callee) (payload : Payload)
    (m n : Nat) : Prop :=
  ∃ tr frame passes next l, (w.body callee).Asks tr (.panic payload) ∧
    x.Through t (frame :: calls) tr (m + 1) l ∧ l ≤ n ∧
    (x.state n).core t = some ⟨.running (.perform (.panic payload) next), frame :: calls, passes⟩

/-- After `n` steps task `t` waits inside of the call that it made with the step after `m` steps, and the
time that the call may take is over. -/
def Outlasts (x : Execution w) (t : TaskId) (calls : Calls A) (limit : Option Duration) (d : Duration)
    (m n : Nat) : Prop :=
  limit = some d ∧ (x.state m).now + d.ceilMillis ≤ (x.state n).now ∧
    ∃ wait inner frame passes,
      (x.state n).core t = some ⟨.waiting wait, inner ++ frame :: calls, passes⟩

/-- What a fate says about a call that is made with the step after `m` steps and left with the step after
`n` steps. -/
def Explains (x : Execution w) (t : TaskId) (calls : Calls A) (callee : Callee)
    (limit : Option Duration) (m n : Nat) : Fate → Prop
  | .returned => x.Completes t calls callee (.ok ()) m n
  | .reported e => x.Completes t calls callee (.error e) m n
  | .panicked payload => x.Panics t calls callee payload m n
  | .outlasted d => x.Outlasts t calls limit d m n

variable {x : Execution w} {t : TaskId} {calls : Calls A} {passes : List Pass} {callee : Callee}
  {limit : Option Duration} {next : Outcome → Program A Outcome} {i j m n : Nat} {k k' : Core A}
  {f : Nat × (Outcome → Program A Outcome)} {o : Outcome}

/-! ### Inside a call -/

/-- A call that is waited for is in progress. -/
theorem Awaits.inside (h : x.Awaits t calls (.call callee limit) next m n) {l : Nat} (hl : m < l)
    (hln : l ≤ n) : ∃ k passes, (x.state l).core t = some k ∧ Inside next calls passes k := by
  obtain ⟨k, hk, ⟨wait, passes, hwait, -⟩ | ⟨passes, hinside⟩⟩ := h.pends l hl hln
  · exact hwait.elim
  · exact ⟨k, passes, hk, hinside⟩

/-- As long as a call is in progress, the task is not cut off from it. -/
theorem Awaits.uncut (h : x.Awaits t calls (.call callee limit) next m n)
    (huncut : x.Uncut t calls.length m n) : x.Uncut t (calls.length + 1) (m + 1) n := by
  intro l hl hln
  obtain ⟨k, hk, hended, -⟩ := huncut l (Nat.le_of_succ_le hl) hln
  obtain ⟨k', passes, hk', hinside⟩ := h.inside hl hln
  obtain rfl := Option.some.inj (hk.symm.trans hk')
  obtain ⟨inner, hcalls, -⟩ := hinside.calls
  refine ⟨k, hk, hended, ?_⟩
  rw [hcalls, List.length_append, List.length_cons]
  omega

/-- Whoever is told nothing of a call for ever is inside of it for ever. -/
theorem uncut_of_forever (hawaits : ∀ n, m ≤ n → x.Awaits t calls (.call callee limit) next m n)
    (huncut : ∀ n, x.Uncut t calls.length m n) (n : Nat) : x.Uncut t (calls.length + 1) (m + 1) n := by
  rcases Nat.le_total m n with hmn | hmn
  · exact (hawaits n hmn).uncut (huncut n)
  · exact fun l hl hl' => absurd hl (Nat.not_le_of_lt (Nat.lt_succ_of_le (Nat.le_trans hl' hmn)))

/-- With the step that makes a call the body begins, and its deadline is set. -/
theorem Awaits.entered (h : x.Awaits t calls (.call callee limit) next m n) (hmn : m < n)
    (huncut : x.Uncut t calls.length m n) : ∃ passes,
    (x.state (m + 1)).core t
        = some ⟨.running (w.body callee), (passes.length, next) :: calls, passes⟩ ∧
      (x.state (m + 1)).limits t
        = limit.map (fun d => (d, (x.state m).now + d.ceilMillis)) :: (x.state m).limits t := by
  obtain ⟨passes, hbefore⟩ := h.before
  obtain ⟨k, hk, hended, hdepth⟩ := huncut (m + 1) (Nat.le_succ m) hmn
  obtain rfl := Step.of_call hended hdepth (step_of_turn h.turn hbefore hk)
  exact ⟨passes, hk, (timed_of_turn h.turn hbefore hk).of_call hended⟩

/-- The deadline of a call stays what it was when the call was made. -/
theorem Awaits.deadline (h : x.Awaits t calls (.call callee limit) next m n) (hkeeps : x.KeepsLimits t)
    (hmn : m < n) (huncut : x.Uncut t calls.length m n) :
    limit.map (fun d => (d, (x.state m).now + d.ceilMillis)) :: (x.state m).limits t
        <:+ (x.state n).limits t ∧
      (limit.map (fun d => (d, (x.state m).now + d.ceilMillis)) :: (x.state m).limits t).length
        = calls.length + 1 := by
  obtain ⟨passes, hbefore⟩ := h.before
  obtain ⟨-, -, hentered⟩ := h.entered hmn huncut
  have hlength : ((x.state m).limits t).length = calls.length := State.length_limits hbefore
  rw [List.length_cons, hlength]
  refine ⟨limits_followed hkeeps hmn (h.uncut huncut) ?_ ?_, rfl⟩
  · exact ⟨[], hentered.symm⟩
  · exact Nat.le_of_eq (congrArg Nat.succ hlength)

/-! ### The end of a body -/

/-- A task whose body has come to its end leaves the call with its next step. -/
theorem not_acts_of_done :
    ¬ x.Acts t (calls.length + 1) ⟨.running (.done o), f :: calls, passes⟩ i n k' := by
  intro hacts
  have hdepth := hacts.depth
  rw [(timed_of_turn hacts.turn hacts.before hacts.after).of_done hacts.goesOn] at hdepth
  exact absurd hdepth (Nat.not_succ_le_self _)

/-- **A body that has come to its end asks for nothing more.** -/
theorem stays_done (huncut : x.Uncut t (calls.length + 1) i j) (hij : i ≤ j)
    (hk : (x.state i).core t = some ⟨.running (.done o), f :: calls, passes⟩) :
    (x.state j).core t = some ⟨.running (.done o), f :: calls, passes⟩ := by
  rcases first_turn huncut hij hk with hrests | ⟨n, k', -, hacts⟩
  · exact hrests.last hij
  · exact absurd hacts not_acts_of_done

/-- How far a called body has come, as long as the call is in progress. -/
theorem Awaits.body (h : x.Awaits t calls (.call callee limit) next m n) (hmn : m < n)
    (huncut : x.Uncut t calls.length m n) : ∃ d,
    x.Amid t ((d, next) :: calls) (w.body callee) .done (m + 1) n ∨
      ∃ tr o l passes, (w.body callee).Run tr o ∧ x.Through t ((d, next) :: calls) tr (m + 1) l ∧
        l ≤ n ∧ (x.state n).core t = some ⟨.running (.done o), (d, next) :: calls, passes⟩ := by
  obtain ⟨passes, hbody, -⟩ := h.entered hmn huncut
  have hinside := h.uncut huncut
  refine ⟨passes.length, ?_⟩
  have hbegin : (x.state (m + 1)).core t
      = some ⟨.running (w.body callee >>= .done), (passes.length, next) :: calls, passes⟩ := by
    rw [hbody]
    show _ = some (⟨.running ((w.body callee).bind .done), (passes.length, next) :: calls, passes⟩ : Core A)
    rw [Program.bind_done]
  rcases Execution.followed hinside hmn hbegin with hamid | ⟨l, tr, o, hln, hreturns⟩
  · exact .inl (hamid n hmn (Nat.le_refl n))
  · obtain ⟨passes', hafter⟩ := hreturns.after
    exact .inr ⟨tr, o, l, passes', hreturns.run, hreturns.through, hln,
      stays_done (hinside.tail hreturns.through.le) hln hafter⟩

/-- A task on its way through a program that is inside no further call has only those around the program. -/
theorem Amid.calls_eq {α : Type} {p : Program A α} {next : α → Program A Outcome}
    (h : x.Amid t calls p next i n) (hk : (x.state n).core t = some k)
    (hlevel : k.calls.length = calls.length) : k.calls = calls := by
  cases h with
  | idle _ _ _ hcore =>
    obtain rfl := Option.some.inj (hk.symm.trans hcore)
    rfl
  | @busy _ op _ _ _ _ _ _ hm hawaits =>
    obtain ⟨c, hc, ⟨wait, passes, -, rfl⟩ | hcalled⟩ := hawaits.pends n hm (Nat.le_refl n)
    · obtain rfl := Option.some.inj (hk.symm.trans hc)
      rfl
    · obtain rfl := Option.some.inj (hk.symm.trans hc)
      cases op with
      | call callee limit =>
        obtain ⟨passes, hinside⟩ := hcalled
        obtain ⟨inner, hcalls, -⟩ := hinside.calls
        rw [hcalls, List.length_append, List.length_cons] at hlevel
        omega
      | _ => exact hcalled.elim

/-! ### The end of a call -/

/-- Whoever has come to the end of a body inside of no further call has come to the end of this one. -/
theorem Awaits.completes (h : x.Awaits t calls (.call callee limit) next m n) (hmn : m < n)
    (huncut : x.Uncut t calls.length m n) (hk : (x.state n).core t = some k)
    (hlevel : k.calls.length = calls.length + 1) (hdoing : k.doing = .running (.done o)) :
    x.Completes t calls callee o m n := by
  obtain ⟨d, hamid | ⟨tr, o', l, passes, hrun, hthrough, hl, hdone⟩⟩ := h.body hmn huncut
  · obtain ⟨tr, op, l, -, -, -, hserves⟩ := hamid.asks hk hlevel
    rw [hdoing] at hserves
    exact hserves.elim
  · obtain rfl := Option.some.inj (hk.symm.trans hdone)
    cases hdoing
    exact ⟨tr, _, passes, l, hrun, hthrough, hl, hdone⟩

/-- Whoever panics inside of no further call does so in this body. -/
theorem Awaits.panics (h : x.Awaits t calls (.call callee limit) next m n) (hmn : m < n)
    (huncut : x.Uncut t calls.length m n) (hk : (x.state n).core t = some k)
    (hlevel : k.calls.length = calls.length + 1) {payload : Payload} {nxt : Empty → Program A Outcome}
    (hdoing : k.doing = .running (.perform (.panic payload) nxt)) : x.Panics t calls callee payload m n := by
  obtain ⟨d, hamid | ⟨tr, o', l, passes, -, -, -, hdone⟩⟩ := h.body hmn huncut
  · obtain ⟨tr, op, l, hasks, hthrough, hl, hserves⟩ := hamid.asks hk hlevel
    rw [hdoing] at hserves
    obtain rfl : Op.panic payload = op := hserves
    have hframe := hamid.calls_eq hk hlevel
    obtain ⟨doing, calls', passes⟩ := k
    obtain rfl : doing = .running (.perform (.panic payload) nxt) := hdoing
    obtain rfl : calls' = (d, next) :: calls := hframe
    exact ⟨tr, _, passes, nxt, l, hasks, hthrough, hl, hk⟩
  · obtain rfl := Option.some.inj (hk.symm.trans hdone)
    cases hdoing

/-- The limit that a call has in the end is the one with which it was made. -/
theorem Awaits.limit_eq (h : x.Awaits t calls (.call callee limit) next m n) (hkeeps : x.KeepsLimits t)
    (huncut : x.Uncut t calls.length m n) (hmn : m < n) {l : Option (Duration × Nat)} {ls : Limits}
    (hls : l :: ls <:+ (x.state n).limits t) (hlength : ls.length = calls.length) :
    l = limit.map fun d => (d, (x.state m).now + d.ceilMillis) := by
  obtain ⟨hkept, hmade⟩ := h.deadline hkeeps hmn huncut
  have hlengths := (congrArg Nat.succ hlength).trans hmade.symm
  have hsame := (List.suffix_of_suffix_length_le hls hkept (Nat.le_of_eq hlengths)).eq_of_length hlengths
  exact (List.cons.inj hsame).1

/-- **Whoever goes on after a call goes on with the outcome of its fate.** -/
theorem Awaits.fate {doing : Doing A} (h : x.Awaits t calls (.call callee limit) next m n)
    (hkeeps : x.KeepsLimits t) (huncut : x.Uncut t calls.length m n) (hmn : m < n)
    (hturn : x.turn n = some t) (hafter : (x.state (n + 1)).core t = some ⟨doing, calls, passes⟩)
    (hended : doing ≠ .ended) :
    ∃ fate : Fate, x.Explains t calls callee limit m n fate ∧ doing = .running (next fate.outcome) := by
  obtain ⟨k, passes₁, hk, ⟨inner, hcalls, -⟩, -⟩ := h.inside hmn (Nat.le_refl n)
  obtain ⟨o, before, l, hls, -, hleaving, rfl⟩ :=
    (timed_of_turn hturn hk hafter).leaving hended hcalls
  have hlevel : inner = [] → k.calls.length = calls.length + 1 := by
    rintro rfl
    rw [hcalls]
    rfl
  cases hleaving with
  | @returns o hinner hdoing =>
    have hcompletes := h.completes hmn huncut hk (hlevel hinner) hdoing
    cases o with
    | ok => exact ⟨.returned, hcompletes, rfl⟩
    | error e => exact ⟨.reported e, hcompletes, rfl⟩
  | panics hinner hdoing => exact ⟨.panicked _, h.panics hmn huncut hk (hlevel hinner) hdoing, rfl⟩
  | @expires wait d due hdoing hl hdue =>
    have hlimit := h.limit_eq hkeeps huncut hmn ⟨before, hls.symm⟩ (State.length_limits hafter)
    obtain ⟨d', hd, heq⟩ := Option.map_eq_some_iff.1 (hlimit.symm.trans hl)
    cases heq
    obtain ⟨doing, calls', passes'⟩ := k
    obtain rfl : doing = .waiting wait := hdoing
    obtain rfl : calls' = inner ++ (passes₁.length, next) :: calls := hcalls
    exact ⟨.outlasted d, ⟨hd, hdue, wait, inner, _, passes', hk⟩, rfl⟩

/-- A call that is answered has been in progress in between, and the caller is told its fate. -/
theorem Awaits.over (h : x.Awaits t calls (.call callee limit) next m n)
    (hanswers : x.Answers t calls ⟨.call callee limit, o⟩ m n) (hkeeps : x.KeepsLimits t)
    (huncut : x.Uncut t calls.length m (n + 1))
    (hafter : (x.state (n + 1)).core t = some ⟨.running (next o), calls, passes⟩) :
    m < n ∧ ∃ fate : Fate, x.Explains t calls callee limit m n fate ∧
      (x.state (n + 1)).core t = some ⟨.running (next fate.outcome), calls, passes⟩ := by
  have hmn : m < n := by
    refine Nat.lt_of_le_of_ne hanswers.le fun heq => ?_
    subst heq
    obtain ⟨passes', hbefore⟩ := h.before
    have hended : (⟨.running (next o), calls, passes⟩ : Core A).doing ≠ .ended := nofun
    have hentered := Step.of_call hended (Nat.le_refl _) (step_of_turn h.turn hbefore hafter)
    exact absurd (congrArg (fun k => k.calls.length) hentered) (Nat.succ_ne_self _).symm
  obtain ⟨fate, hexplains, heq⟩ := h.fate hkeeps (huncut.mono (Nat.le_refl m) (Nat.le_succ n)) hmn
    hanswers.turn hafter nofun
  exact ⟨hmn, fate, hexplains, heq ▸ hafter⟩

end Machine.Execution

end Orchestra
