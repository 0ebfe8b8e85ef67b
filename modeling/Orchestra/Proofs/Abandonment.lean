import Orchestra.Proofs.Aftermath
import Orchestra.Proofs.Calling
import Orchestra.Proofs.Isolation
import Orchestra.Proofs.Readers

/-!
# Calls that are abandoned

A call that panics, or outlasts its limit, is left from wherever the task is inside of it: it may deliver events
on several buses there, or wait for the lock of one.  Nothing of that is left behind, and the caller goes on.

* `Execution.CutsOff` — a call panics, or outlasts its limit;
* `Execution.Abandonment` — a call that is left for that reason; `Abandonment.after` — how the caller goes on;
* `Abandonment.never_answered`, `Abandonment.not_encloses` — no delivery inside of the call goes on;
* `Execution.edit_asked`, `Abandonment.edit_asked_since` — no change that was waited for takes effect;
* `Abandonment.IsMadeIn` — the call is one of a delivery, which goes on and counts it;
* `Abandonment.MeetsIn` — the call is one of a program, which goes on with its failure;
* `abandoned_calls_leave_nothing` — what becomes of all this.
-/

namespace Orchestra

open Machine

variable {A : Application} {α : Type}

/-- The call of a hook is one of the deeds. -/
theorem deeds_call {callee : Callee} (hcallee : ∀ l event, callee ≠ .onEvent l event) (limit : Option Duration)
    (o : Outcome) (tr tr' : List (Exchange A)) :
    deeds (tr ++ ⟨.call callee limit, o⟩ :: tr') = deeds tr ++ .called callee o :: deeds tr' := by
  rw [deeds_append]
  cases callee with
  | hook m p kit => rfl
  | prepare l => rfl
  | onEvent l event => exact absurd rfl (hcallee l event)

/-- A failed visit among others is counted once. -/
theorem tally_failed (cast : Cast) (us later : List Visit) {v : Visit} {err : HookFailure}
    (h : v.fate.failure? = some err) : tally cast (us ++ v :: later)
      = ⟨(tally cast us).delivered + (tally cast later).delivered,
          (tally cast us).failures ++ ⟨cast.name v.listener, err⟩ :: (tally cast later).failures⟩ := by
  rw [← tally_eq_foldl, List.foldl_append, tally_eq_foldl, Delivery.foldl_count, tally_cons, h]

namespace Machine.Execution

variable {w : World A} {x : Execution w} {t : TaskId} {calls : Calls A} {passes : List Pass} {b : BusId}
  {callee : Callee} {limit : Option Duration} {i j m n d : Nat} {k k' : Core A} {e : Errand}

/-! ### Changes to the listeners -/

/-- Whoever waits to change the listeners of a bus has asked for it. -/
theorem awaits_of_waitsIn {edit : Edit} {next : Bool → Program A Outcome} {wait : Wait A}
    (hwait : (Op.edit b edit : Op A).WaitsIn next wait)
    (hk : (x.state n).core t = some ⟨.waiting wait, calls, passes⟩) :
    ∃ m, m < n ∧ x.Awaits t calls (.edit b edit) next m n := by
  -- On the steps: whoever waits has waited before, first for the lock and then with the copy, or has just asked.
  induction n generalizing wait with
  | zero =>
    obtain ⟨buses, memory, hstart⟩ := x.start
    rw [hstart] at hk
    cases State.core_start hk
  | succ n ih =>
    have hpends : (Op.edit b edit : Op A).Pends next calls ⟨.waiting wait, calls, passes⟩ :=
      .inl ⟨wait, passes, hwait, rfl⟩
    have hstill : ∀ {wait' : Wait A}, (Op.edit b edit : Op A).WaitsIn next wait' →
        (x.state n).core t = some ⟨.waiting wait', calls, passes⟩ →
        ∃ m, m < n + 1 ∧ x.Awaits t calls (.edit b edit) next m (n + 1) := by
      intro wait' hwait' hk'
      obtain ⟨m, hm, hawaits⟩ := ih hwait' hk'
      exact ⟨m, Nat.lt_succ_of_lt hm, hawaits.later hk hpends⟩
    rcases x.core_cases hk with ⟨-, hsame⟩ | ⟨k, hturn, hbefore, hstep⟩ | ⟨-, job, hnew⟩ |
      ⟨-, p, calls', hnew, -⟩ | hnew
    · exact hstill hwait hsame
    · generalize (x.state n).bus = g, (x.state (n + 1)).bus = g' at hstep
      rcases hwait with rfl | ⟨copy, rfl⟩
      · cases hstep with
        | goes _ _ hclaim => cases hclaim
        | wantsToEdit =>
          refine ⟨n, Nat.lt_succ_self n, hturn, ⟨passes, hbefore⟩, fun l hl hl' => ?_⟩
          obtain rfl := Nat.le_antisymm hl' hl
          exact ⟨_, hk, hpends⟩
      · cases hstep with
        | goes _ _ hclaim => cases hclaim
        | copies => exact hstill (.inl rfl) hbefore
    · cases hnew
    · cases hnew
    · cases hnew

/-- **Whoever changes the listeners of a bus has asked for that change**, and has waited for it since. -/
theorem edit_asked {edit : Edit} (hedit : x.edit b n = some edit) (hturn : x.turn n = some t) :
    ∃ calls next m, m < n ∧ x.Awaits t calls (.edit b edit) next m n := by
  obtain ⟨u, k, k', hu, hk, -, hedits⟩ := edit_eq_some hedit
  obtain rfl := Option.some.inj (hu.symm.trans hturn)
  obtain ⟨copy, next, p, hdoing, -⟩ := Doing.edits_eq_some hedits
  obtain ⟨doing, calls, passes⟩ := k
  obtain rfl : doing = .waiting (.replacing b edit copy next) := hdoing
  obtain ⟨m, hm, hawaits⟩ := awaits_of_waitsIn (.inr ⟨copy, rfl⟩) hk
  exact ⟨calls, next, m, hm, hawaits⟩

/-! ### The calls of a delivery -/

section

variable {vs : List Visit} {next : Delivery → Program A Outcome} {nxt : Outcome → Program A Outcome}
  {set : List ListenerId} {dl : Delivery}

/-- A call that is made in the course of a delivery is one of its visits. -/
theorem Tours.visit_at (h : x.Tours t calls e vs i j) (hi : i ≤ m) (hj : m < j)
    (hcall : x.callAt t calls.length m = some callee) :
    ∃ us v later, vs = us ++ v :: later ∧ v.made = m ∧ x.Tours t calls e us i m := by
  induction h with
  | nil _ hnobody => cases hcall.symm.trans (callAt_of_heard hnobody hi hj)
  | @cons v vs i j hiv hbefore hv hrest ih =>
    rcases Nat.lt_trichotomy m v.made with hlt | rfl | hlt
    · cases hcall.symm.trans (callAt_of_heard hbefore hi hlt)
    · exact ⟨[], v, vs, rfl, rfl, .nil hi hbefore⟩
    · rcases Nat.lt_or_ge v.left m with hleft | hleft
      · obtain ⟨us, v', later, rfl, hmade, htour⟩ := ih hleft hj
        exact ⟨v :: us, v', later, rfl, hmade, .cons hiv hbefore hv htour⟩
      · cases hcall.symm.trans (callAt_inside hv.inside (Nat.lt_succ_self _) hlt hleft)

/-- Tours one after another. -/
theorem Tours.append {us : List Visit} (h : x.Tours t calls e us i m) (h' : x.Tours t calls e vs m j) :
    x.Tours t calls e (us ++ vs) i j := by
  induction h with
  | nil hm hnobody => exact h'.earlier hm hnobody
  | cons hi hbefore hv _ ih => exact .cons hi hbefore hv (ih h')

/-- Whoever is about to call somebody in the course of a delivery calls the next of the listeners, and has the
rest of the delivery before it. -/
theorem deliverTo_calling (hkeeps : x.KeepsLimits t) (huncut : x.Uncut t calls.length i j) (hij : i ≤ j)
    (hk : (x.state i).core t = some ⟨.running (e.onward next set dl), calls, passes⟩) {passes' : List Pass}
    (hj : (x.state j).core t = some ⟨.running (.perform (.call callee limit) nxt), calls, passes'⟩) :
    (∃ vs l rest, x.Tours t calls e vs i j ∧ set = vs.map Visit.listener ++ l :: rest ∧
        .perform (.call callee limit) nxt = e.onward next (l :: rest) (vs.foldl (Delivery.count e.cast) dl)) ∨
      ∃ n vs passes', n ≤ j ∧ x.Tours t calls e vs i n ∧ vs.map Visit.listener = set ∧
        (x.state n).core t
          = some ⟨.running (next (vs.foldl (Delivery.count e.cast) dl)), calls, passes'⟩ := by
  induction set generalizing i dl passes with
  | nil => exact .inr ⟨i, [], passes, hij, .nil (Nat.le_refl i) (heard_self i), rfl, hk⟩
  | cons l rest ih =>
    obtain ⟨nxt', hcall, hnotes⟩ := e.onward_cons next l rest dl
    have hk' := hk
    rw [hcall] at hk'
    rcases first_turn huncut hij hk' with hrests | ⟨m, k', hm, hacts⟩
    · refine .inl ⟨[], l, rest, .nil hij (hrests.heard _), rfl, ?_⟩
      have hsame := Option.some.inj (hj.symm.trans (hrests.last hij))
      exact (Doing.running.inj (congrArg Core.doing hsame)).trans hcall.symm
    rcases hacts.asked.followed (Nat.le_of_lt hm) (huncut.tail hacts.le) with
      hawaits | ⟨n, o, passes'', hn, hawaits, hanswers, hafter⟩
    · -- The call of that listener would still be in progress.
      obtain ⟨c, passes'', hc, ⟨inner, hinner, -⟩, -⟩ := hawaits.inside hm (Nat.le_refl j)
      obtain rfl := Option.some.inj (hj.symm.trans hc)
      have hlength := congrArg List.length hinner
      rw [List.length_append, List.length_cons] at hlength
      dsimp only at hlength
      omega
    obtain ⟨v, hvl, hi, hbefore, rfl, hv, hback⟩ :=
      hacts.visit hkeeps (huncut.mono (Nat.le_refl i) hn) hawaits hanswers hafter
    have hafter := Nat.le_trans hi (Nat.le_succ_of_le (Nat.le_of_lt hv.made_lt))
    rcases notes_followed (hnotes v hvl) (huncut.tail hafter) hn hback with
      ⟨err, nxt', passes'', -, -, hpending⟩ | ⟨n, passes'', hvn, hnj, hnobody, hk'⟩
    · cases hpending.symm.trans hj
    · have hfirst : ∀ {us : List Visit} {j' : Nat}, x.Tours t calls e us n j' →
          x.Tours t calls e (v :: us) i j' := fun htour => .cons hi hbefore hv (htour.earlier hvn hnobody)
      rcases ih (huncut.tail (Nat.le_trans hafter hvn)) hnj hk' with
        ⟨vs, l', rest', htour, rfl, hnext⟩ | ⟨n', vs, passes₃, hn', htour, hall, hdone⟩
      · exact .inl ⟨v :: vs, l', rest', hfirst htour, by rw [List.map_cons, hvl, List.cons_append], hnext⟩
      · exact .inr ⟨n', v :: vs, passes₃, hn', hfirst htour, by rw [List.map_cons, hvl, hall], hdone⟩

end

/-- A task on its way through a program that is about to ask for something asks for it there. -/
theorem Amid.leads {p : Program A α} {nx : α → Program A Outcome} {op : Op A}
    {next : op.Answer → Program A Outcome} (h : x.Amid t calls p nx i n)
    (hk : (x.state n).core t = some ⟨.running (.perform op next), calls, passes⟩) :
    ∃ tr rest, p.Leads tr (.perform op rest) ∧ (∃ m, m ≤ n ∧ x.Through t calls tr i m) ∧
      next = fun a => rest a >>= nx := by
  cases h with
  | @idle tr op' rest m passes' hleads hthrough hm hcore =>
    have hsame := Option.some.inj (hk.symm.trans hcore)
    obtain ⟨rfl, hnext⟩ := Program.perform.inj (Doing.running.inj (congrArg Core.doing hsame))
    exact ⟨tr, rest, hleads, ⟨m, hm, hthrough⟩, eq_of_heq hnext⟩
  | @busy tr op' rest m m' _ _ _ hm hawaits =>
    obtain ⟨c, hc, ⟨wait, passes', -, rfl⟩ | hcalled⟩ := hawaits.pends n hm (Nat.le_refl n)
    · cases hk.symm.trans hc
    · obtain rfl := Option.some.inj (hk.symm.trans hc)
      cases op' with
      | call callee limit =>
        obtain ⟨passes', ⟨inner, hinner, -⟩, -⟩ := hcalled
        have hlength := congrArg List.length hinner
        rw [List.length_append, List.length_cons] at hlength
        dsimp only at hlength
        omega
      | _ => exact hcalled.elim

/-! ### Calls that are cut off -/

/-- What cuts off a call that was made with the step after `m` steps: after `n` steps its body panics, or the
task waits inside of it, however deep, and the time that the call may take is over. -/
inductive CutsOff (x : Execution w) (t : TaskId) (calls : Calls A) (limit : Option Duration) (m n : Nat) :
    HookFailure → Prop where
  | panics {payload : Payload} {next : Empty → Program A Outcome} {f : Nat × (Outcome → Program A Outcome)}
      {passes : List Pass} :
      (x.state n).core t = some ⟨.running (.perform (.panic payload) next), f :: calls, passes⟩ →
      CutsOff x t calls limit m n (.panicked payload.message)
  | outlasts {d : Duration} : x.Outlasts t calls limit d m n → CutsOff x t calls limit m n (.timedOut d)

/-- The caller is told what has cut the call off. -/
theorem CutsOff.failure?_eq {err : HookFailure} {fate : Fate} (h : x.CutsOff t calls limit m n err)
    (hfate : x.Explains t calls callee limit m n fate) : fate.failure? = some err := by
  cases h with
  | panics hk =>
    cases fate with
    | returned => obtain ⟨_, _, _, _, _, _, _, hdone⟩ := hfate; cases hk.symm.trans hdone
    | reported err => obtain ⟨_, _, _, _, _, _, _, hdone⟩ := hfate; cases hk.symm.trans hdone
    | panicked payload => obtain ⟨_, _, _, _, _, _, _, _, hpanic⟩ := hfate; cases hk.symm.trans hpanic; rfl
    | outlasted d => obtain ⟨_, _, _, _, _, _, hwaits⟩ := hfate; cases hk.symm.trans hwaits
  | outlasts houtlasts =>
    obtain ⟨hlimit, _, _, _, _, _, hk⟩ := houtlasts
    cases fate with
    | returned => obtain ⟨_, _, _, _, _, _, _, hdone⟩ := hfate; cases hk.symm.trans hdone
    | reported err => obtain ⟨_, _, _, _, _, _, _, hdone⟩ := hfate; cases hk.symm.trans hdone
    | panicked payload => obtain ⟨_, _, _, _, _, _, _, _, hpanic⟩ := hfate; cases hk.symm.trans hpanic
    | outlasted d =>
      obtain ⟨hlimit', -⟩ := hfate
      obtain rfl := Option.some.inj (hlimit.symm.trans hlimit')
      rfl

/-- A task makes a call with the step after `made` steps, and with the step after `left` steps it leaves the
call, which is cut off. -/
structure Abandonment (x : Execution w) where
  task : TaskId
  callee : Callee
  limit : Option Duration
  /-- What the caller does with the outcome. -/
  next : Outcome → Program A Outcome
  /-- The calls and the deliveries around this call. -/
  calls : Calls A
  passes : List Pass
  made : Nat
  left : Nat
  failure : HookFailure
  begins : (x.state made).core task = some ⟨.running (.perform (.call callee limit) next), calls, passes⟩
  called : x.turn made = some task
  made_lt : made < left
  inside : x.Uncut task (calls.length + 1) (made + 1) left
  cut : x.CutsOff task calls limit made left failure
  turn : x.turn left = some task
  /-- Neither a call around this one is left, nor does the task end. -/
  out : ∃ k, (x.state (left + 1)).core task = some k ∧ k.doing ≠ .ended ∧ k.calls.length = calls.length
  /-- Nobody else changes the limits of the task, as the scheduler never does. -/
  keeps : x.KeepsLimits task

namespace Abandonment

variable (a : x.Abandonment)

theorem uncut : x.Uncut a.task a.calls.length a.made (a.left + 1) := by
  intro n hn hn'
  rcases Nat.eq_or_lt_of_le hn with rfl | hlt
  · exact ⟨_, a.begins, nofun, Nat.le_refl _⟩
  rcases Nat.lt_or_eq_of_le hn' with hlt' | rfl
  · obtain ⟨k, hk, hended, hdepth⟩ := a.inside n hlt (Nat.le_of_lt_succ hlt')
    exact ⟨k, hk, hended, Nat.le_of_succ_le hdepth⟩
  · obtain ⟨k, hk, hended, hlevel⟩ := a.out
    exact ⟨k, hk, hended, Nat.le_of_eq hlevel.symm⟩

/-- Until it leaves the call, the task does what it does on top of the caller's calls and deliveries. -/
theorem within (hn : a.made < n) (hn' : n ≤ a.left) :
    ∃ k, (x.state n).core a.task = some k ∧ Inside a.next a.calls a.passes k := by
  obtain ⟨k, hk, hended, hdepth⟩ := a.inside (a.made + 1) (Nat.le_refl _) a.made_lt
  obtain rfl := Step.of_call hended (Nat.le_of_succ_le hdepth) (step_of_turn a.called a.begins hk)
  have huncut := a.uncut.mono (Nat.le_succ a.made) (Nat.le_succ_of_le hn')
  rcases inside_followed huncut hn hk ⟨⟨[], rfl, nofun⟩, [], rfl⟩ with ⟨hinside, -⟩ | ⟨r, o, hr, hback, hspends⟩
  · exact hinside
  · obtain ⟨k', hk', -, hdepth'⟩ := a.inside r hspends.le (Nat.le_trans hr hn')
    obtain rfl := Option.some.inj (hback.symm.trans hk')
    exact absurd hdepth' (Nat.not_succ_le_self _)

theorem awaits : x.Awaits a.task a.calls (.call a.callee a.limit) a.next a.made a.left := by
  refine ⟨a.called, ⟨a.passes, a.begins⟩, fun n hn hn' => ?_⟩
  obtain ⟨k, hk, hinside⟩ := a.within hn hn'
  exact ⟨k, hk, .inr ⟨a.passes, hinside⟩⟩

/-- **The caller goes on with the failure**, within the calls and deliveries within which it made the call. -/
theorem after : (x.state (a.left + 1)).core a.task
    = some ⟨.running (a.next (.error a.failure)), a.calls, a.passes⟩ := by
  obtain ⟨k, hk, hinside⟩ := a.within a.made_lt (Nat.le_refl _)
  obtain ⟨k', hk', hended, hlevel⟩ := a.out
  rcases (step_of_turn a.turn hk hk').inside hinside hended (Nat.le_of_eq hlevel.symm) with hinside' | ⟨o, rfl⟩
  · obtain ⟨inner, hcalls, -⟩ := hinside'.calls
    rw [hcalls, List.length_append, List.length_cons] at hlevel
    omega
  · obtain ⟨fate, hexplains, hgoes⟩ := a.awaits.fate a.keeps
      (a.uncut.mono (Nat.le_refl _) (Nat.le_succ _)) a.made_lt a.turn hk' nofun
    rw [hk', hgoes, Fate.outcome, a.cut.failure?_eq hexplains]

/-! ### Deliveries inside of the call -/

/-- What was begun inside of the call is cut off with it. -/
theorem cuts (hn : a.made < n) (hn' : n ≤ a.left) (hk : (x.state n).core a.task = some k)
    (hi : i ≤ a.left + 1) (hj : a.left < j) : ¬ x.Uncut a.task k.calls.length i j := by
  intro huncut
  obtain ⟨k₀, hk₀, -, hdeeper⟩ := a.inside n hn hn'
  obtain rfl := Option.some.inj (hk.symm.trans hk₀)
  obtain ⟨k', hk', -, hdepth⟩ := huncut (a.left + 1) hi hj
  obtain rfl := Option.some.inj (hk'.symm.trans a.after)
  exact absurd (Nat.le_trans hdeeper hdepth) (Nat.not_succ_le_self _)

/-- **No delivery that was begun inside of the call is in progress any more.** -/
theorem not_encloses (hm : a.made < m) (hm' : m ≤ a.left) (hj : a.left < j) : ¬ x.Encloses a.task b m j := by
  rintro ⟨calls, outer, hsurrounds⟩
  obtain ⟨next, hbefore⟩ := hsurrounds.opens.before
  exact a.cuts hm hm' hbefore (Nat.succ_le_succ hm') hj hsurrounds.uncut

/-- **No delivery that was begun inside of the call goes on**, and none is answered. -/
theorem never_answered (q : x.Passage e) (htask : q.task = a.task) (hm : a.made < q.start) (hm' : q.start ≤ a.left)
    (hj : a.left < j) :
    ¬ x.Uncut q.task q.calls.length q.start j ∧ ∀ vs d, ¬ q.Answers vs d j := by
  have hbegins := q.begins
  rw [htask] at hbegins ⊢
  have hcut := a.cuts hm hm' hbegins (Nat.le_succ_of_le hm') hj
  exact ⟨hcut, fun vs d h => hcut (htask ▸ h.uncut)⟩

/-- Whoever is called from then on is called by the caller, or inside of a call that the caller has made
since. -/
theorem called_since (hn : a.left < n) (huncut : x.Uncut a.task a.calls.length (a.left + 1) n)
    (hcall : x.callBy a.task n = some callee) :
    ∃ m callee', a.left < m ∧ m ≤ n ∧ x.callAt a.task a.calls.length m = some callee' := by
  obtain ⟨k, hk, -, hdepth⟩ := huncut n hn (Nat.le_refl n)
  rcases Nat.eq_or_lt_of_le hdepth with hlevel | hdeeper
  · rw [callBy_of_core hk, ← hlevel] at hcall
    exact ⟨n, callee, hn, Nat.le_refl n, hcall⟩
  · obtain ⟨m, callee', hm, hmn, hcall'⟩ := entered_since hn huncut a.after rfl hk hdeeper
    exact ⟨m, callee', hm, Nat.le_of_lt hmn, hcall'⟩

/-! ### Changes that were waited for -/

/-- Whoever leaves a call changes no listeners. -/
theorem edit_eq_none (b : BusId) : x.edit b a.left = none := by
  obtain ⟨k, hk, hinside⟩ := a.within a.made_lt (Nat.le_refl _)
  cases hedit : x.edit b a.left with
  | none => rfl
  | some edit =>
    rw [edit_of_turn a.turn hk a.after] at hedit
    obtain ⟨copy, next, -, heq, -⟩ := (step_of_turn a.turn hk a.after).listeners_of_edit hedit
    obtain ⟨inner, hcalls, -⟩ := hinside.calls
    have hlength := congrArg (fun k => k.calls.length) heq
    dsimp only at hlength
    rw [hcalls, List.length_append, List.length_cons] at hlength
    omega

theorem listeners_eq (b : BusId) : x.listeners b (a.left + 1) = x.listeners b a.left := by
  have hmakes := makes_succ (x := x) (b := b) a.left
  rw [a.edit_eq_none] at hmakes
  exact hmakes.listeners

/-- **No change that was waited for takes effect**: what the task changes from then on it has asked for
since. -/
theorem edit_asked_since {edit : Edit} (hn : a.left ≤ n) (hturn : x.turn n = some a.task)
    (hedit : x.edit b n = some edit) :
    ∃ calls next m, a.left < m ∧ m < n ∧ x.Awaits a.task calls (.edit b edit) next m n := by
  obtain ⟨calls, next, m, hm, hawaits⟩ := edit_asked hedit hturn
  refine ⟨calls, next, m, Nat.lt_of_not_le fun hle => ?_, hm, hawaits⟩
  have hlater : a.left < n := by
    refine Nat.lt_of_le_of_ne hn fun heq => ?_
    rw [← heq, a.edit_eq_none] at hedit
    cases hedit
  -- When it went on, it would still have waited.
  obtain ⟨k, hk, ⟨wait, passes, -, rfl⟩ | hcalled⟩ := hawaits.pends (a.left + 1) (Nat.lt_succ_of_le hle) hlater
  · cases hk.symm.trans a.after
  · exact hcalled.elim

/-! ### The delivery around the call -/

/-- The call is one of a delivery that has neither been cut off nor answered when it is made. -/
structure IsMadeIn (p : x.Passage e) : Prop where
  task : p.task = a.task
  calls : p.calls = a.calls
  start_le : p.start ≤ a.made
  uncut : x.Uncut p.task p.calls.length p.start a.made
  unanswered : ∀ n vs d, n ≤ a.made → ¬ p.Answers vs d n

variable {a} {p : x.Passage e} {vs : List Visit} {dl : Delivery}

/-- As long as the delivery is not cut off later it has not been cut off at all. -/
theorem IsMadeIn.uncut_of (h : a.IsMadeIn p) (huncut : x.Uncut a.task a.calls.length (a.left + 1) j) :
    x.Uncut p.task p.calls.length p.start j := by
  rw [h.task, h.calls]
  exact (h.task ▸ h.calls ▸ h.uncut).trans (a.uncut.trans huncut)

/-- The call is that of the next listener, and the caller goes on with the rest of the delivery. -/
theorem IsMadeIn.goesOn (h : a.IsMadeIn p) :
    ∃ us l rest, x.Tours p.task p.calls e us p.start a.made ∧ e.meant = us.map Visit.listener ++ l :: rest ∧
      a.callee = e.call l ∧ a.limit = e.limit ∧
      a.next (.error a.failure) = .perform (.record (Bus.failureRecord e.cast e.event l a.failure))
        fun _ => e.onward p.next rest ((tally e.cast us).failed (e.cast.name l) a.failure) := by
  have hbegins := a.begins
  rw [← h.task, ← h.calls] at hbegins
  rcases deliverTo_calling p.keeps h.uncut h.start_le p.onward_begins hbegins with
    ⟨us, l, rest, htour, hmeant, honward⟩ | ⟨n, us, passes, hn, htour, hall, hafter⟩
  · rw [tally_eq_foldl] at honward
    obtain ⟨nxt, hcall, -, herror⟩ :=
      Bus.deliverTo_cons e.cast e.bus e.event l rest (tally e.cast us) p.next
    obtain ⟨hop, hnext⟩ := Program.perform.inj (honward.trans hcall)
    obtain ⟨hcallee, hlimit⟩ := Op.call.inj hop
    obtain rfl := eq_of_heq hnext
    exact ⟨us, l, rest, htour, hmeant, hcallee, hlimit, herror a.failure⟩
  · rw [tally_eq_foldl] at hafter
    exact absurd ⟨htour, hall, rfl, h.uncut.mono (Nat.le_refl _) hn, passes, hafter⟩ (h.unanswered n us _ hn)

/-- The call is one of the visits of the delivery. -/
theorem visits {l : ListenerId} (hcallee : a.callee = e.call l) (hlimit : a.limit = e.limit) :
    ∃ fate : Fate, fate.failure? = some a.failure ∧ x.Visits a.task a.calls e ⟨l, fate, a.made, a.left⟩ := by
  obtain ⟨fate, hexplains, -⟩ := a.awaits.fate a.keeps (a.uncut.mono (Nat.le_refl _) (Nat.le_succ _)) a.made_lt
    a.turn a.after nofun
  have hfate := a.cut.failure?_eq hexplains
  have hawaits := a.awaits
  have hafter := a.after
  rw [hcallee, hlimit] at hawaits hexplains
  refine ⟨fate, hfate, a.made_lt, ⟨a.next, hawaits, a.passes, ?_⟩, a.inside, hexplains⟩
  rw [hafter, Fate.outcome, hfate]

/-- **The delivery is answered** if the calls of the listeners that are left come to an end. -/
theorem IsMadeIn.answered (h : a.IsMadeIn p) {us : List Visit} {l : ListenerId} {rest : List ListenerId}
    (htour : x.Tours p.task p.calls e us p.start a.made) (hmeant : e.meant = us.map Visit.listener ++ l :: rest)
    (hcallee : a.callee = e.call l) (hlimit : a.limit = e.limit)
    (hnext : a.next (.error a.failure) = .perform (.record (Bus.failureRecord e.cast e.event l a.failure))
      fun _ => e.onward p.next rest ((tally e.cast us).failed (e.cast.name l) a.failure))
    (hattends : x.Attends p.task) (huncut : ∀ j, x.Uncut a.task a.calls.length (a.left + 1) j)
    (hends : ∀ l' ∈ rest, x.Ends p.task p.calls e l') : ∃ n vs d, p.Answers vs d n := by
  obtain ⟨fate, hfate, hv⟩ := a.visits hcallee hlimit
  have hafter := a.after
  have hforever := huncut
  rw [← h.task, ← h.calls] at hv hafter hforever
  obtain ⟨m, passes, hm, hnobody, honward⟩ := notes_end (v := ⟨l, fate, a.made, a.left⟩)
    (.inr ⟨a.failure, hfate, hnext⟩) hattends hforever hafter
  obtain ⟨n, later, passes', hlater, hall, hdone⟩ :=
    deliverTo_ends p.keeps hattends (fun n => (hforever n).tail hm) hends honward
  have hwhole : x.Tours p.task p.calls e (us ++ ⟨l, fate, a.made, a.left⟩ :: later) p.start n :=
    htour.append (.cons (Nat.le_refl _) (heard_self _) hv (hlater.earlier hm hnobody))
  refine ⟨n, _, _, hwhole, ?_, rfl, h.uncut_of (huncut n), passes', ?_⟩
  · rw [hmeant, List.map_append, List.map_cons, hall]
  · rw [hdone, tally_failed e.cast us later hfate, Delivery.foldl_count, Delivery.failed, List.append_assoc,
      List.singleton_append]

/-- A visit that begins with the step that makes the call ends with the step that leaves it, and fails. -/
theorem visit_eq {v : Visit} (hv : x.Visits a.task a.calls e v) (hmade : v.made = a.made) :
    v.left = a.left ∧ v.fate.failure? = some a.failure := by
  obtain ⟨next, hawaits, passes, hback⟩ := hv.call
  obtain ⟨passes', hbefore⟩ := hawaits.before
  have hlt := hv.made_lt
  have hinside := hv.inside
  have hexplains := hv.explains
  rw [hmade] at hbefore hlt hinside hexplains
  have hleft : v.left = a.left := by
    rcases Nat.lt_trichotomy v.left a.left with hless | heq | hless
    · obtain ⟨k, hk, -, hdeeper⟩ := a.inside (v.left + 1) (Nat.succ_le_succ (Nat.le_of_lt hlt)) hless
      obtain rfl := Option.some.inj (hback.symm.trans hk)
      exact absurd hdeeper (Nat.not_succ_le_self _)
    · exact heq
    · obtain ⟨k, hk, -, hdeeper⟩ := hinside (a.left + 1) (Nat.succ_le_succ (Nat.le_of_lt a.made_lt)) hless
      obtain rfl := Option.some.inj (a.after.symm.trans hk)
      exact absurd hdeeper (Nat.not_succ_le_self _)
  have hsame := congrArg Core.doing (Option.some.inj (a.begins.symm.trans hbefore))
  obtain ⟨hop, -⟩ := Program.perform.inj (Doing.running.inj hsame)
  obtain ⟨-, hlimit⟩ := Op.call.inj hop
  rw [hleft, ← hlimit] at hexplains
  exact ⟨hleft, a.cut.failure?_eq hexplains⟩

/-- **The answer of the delivery counts one failure for the call.** -/
theorem IsMadeIn.counted (h : a.IsMadeIn p) {us : List Visit} {l : ListenerId} {rest : List ListenerId}
    (htour : x.Tours p.task p.calls e us p.start a.made) (hmeant : e.meant = us.map Visit.listener ++ l :: rest)
    (hanswers : p.Answers vs dl n) :
    ∃ earlier v later, vs = earlier ++ v :: later ∧
      earlier.map Visit.listener = us.map Visit.listener ∧ v.listener = l ∧ later.map Visit.listener = rest ∧
      v.made = a.made ∧ v.left = a.left ∧
      dl.delivered = (tally e.cast earlier).delivered + (tally e.cast later).delivered ∧
      dl.failures = (tally e.cast earlier).failures
        ++ ⟨e.cast.name l, a.failure⟩ :: (tally e.cast later).failures := by
  have hcall := callAt_of_call a.called a.begins
  rw [← h.task, ← h.calls] at hcall
  have hn : a.made < n := Nat.lt_of_not_le fun hle => h.unanswered n vs dl hle hanswers
  obtain ⟨earlier, v, later, rfl, hmade, htour'⟩ := hanswers.tour.visit_at h.start_le hn hcall
  have hv := hanswers.tour.visits (List.mem_append_right earlier List.mem_cons_self)
  rw [h.task, h.calls] at hv
  obtain ⟨hleft, hfails⟩ := a.visit_eq hv hmade
  -- The same listeners have been called before, and so this is the one that is called now.
  have hsame : earlier.map Visit.listener = us.map Visit.listener := by
    have hinjective : Function.Injective e.call := fun l l' heq => (Callee.onEvent.inj heq).1
    exact List.map_injective_iff.2 hinjective (htour'.heard.symm.trans htour.heard)
  have hall := hanswers.all
  rw [hmeant, List.map_append, List.map_cons, hsame] at hall
  obtain ⟨hl, hrest⟩ := List.cons.inj (List.append_cancel_left hall)
  have htally := hanswers.counts
  rw [tally_failed e.cast earlier later hfails, hl] at htally
  refine ⟨earlier, v, later, rfl, hsame, hl, hrest, hmade, hleft, ?_, ?_⟩
  · rw [htally]
  · rw [htally]

/-! ### The program around the call -/

variable (a)

/-- Whoever makes the call on the way through a program goes on with the failure; and if the program comes to
its end, what has been done before and after is as it should be. -/
def MeetsIn (p : Program A α) (post : List Deed → List Deed → α → Prop) : Prop :=
  ∀ (nx : α → Program A Outcome) (i : Nat), x.Amid a.task a.calls p nx i a.made →
    ∃ tr rest, p.Leads tr (.perform (.call a.callee a.limit) rest) ∧
      (∃ m, m ≤ a.made ∧ x.Through a.task a.calls tr i m) ∧
      a.next (.error a.failure) = rest (.error a.failure) >>= nx ∧
      ∀ j, a.left < j → x.Uncut a.task a.calls.length (a.left + 1) j →
        x.Amid a.task a.calls (rest (.error a.failure)) nx (a.left + 1) j ∨
        ∃ n tr' r, n ≤ j ∧ x.Returns a.task a.calls (rest (.error a.failure)) nx (a.left + 1) n tr' r ∧
          p.Run (tr ++ ⟨.call a.callee a.limit, .error a.failure⟩ :: tr') r ∧ post (deeds tr) (deeds tr') r

variable {a}

/-- It does so if the runs of the program follow a course, and failures in that course have such an aftermath. -/
theorem meetsIn_of {p : Program A α} {post : List Deed → List Deed → α → Prop} (course : List Deed → α → Prop)
    (hcallee : ∀ l event, a.callee ≠ .onEvent l event) (hcourse : ∀ tr r, p.Run tr r → course (deeds tr) r)
    (haftermath : ∀ ds ds' r, course (ds ++ .called a.callee (.error a.failure) :: ds') r → post ds ds' r) :
    a.MeetsIn p post := by
  intro nx i hamid
  obtain ⟨tr, rest, hleads, hthrough, hnext⟩ := hamid.leads a.begins
  have hfails : a.next (.error a.failure) = rest (.error a.failure) >>= nx := congrFun hnext (.error a.failure)
  have hafter := a.after
  rw [hfails] at hafter
  refine ⟨tr, rest, hleads, hthrough, hfails, fun j hj huncut => ?_⟩
  rcases followed huncut hj hafter with hamid' | ⟨n, tr', r, hn, hreturns⟩
  · exact .inl (hamid' j hj (Nat.le_refl j))
  · have hrun : p.Run (tr ++ ⟨.call a.callee a.limit, .error a.failure⟩ :: tr') r := by
      rw [List.append_cons]
      exact (hleads.snoc (.error a.failure)).run_append hreturns.run
    have hdone := hcourse _ r hrun
    rw [deeds_call hcallee] at hdone
    exact .inr ⟨n, tr', r, hn, hreturns, hrun, haftermath _ _ r hdone⟩

end Abandonment

end Machine.Execution

/-! ### The main result -/

open Machine.Execution in
/-- **An abandoned call leaves nothing behind**, wherever the task is inside of it. -/
theorem abandoned_calls_leave_nothing {w : World A} {x : Execution w} (a : x.Abandonment) :
    -- The caller goes on with the failure, within the calls and deliveries within which it made the call.
    (x.state (a.left + 1)).core a.task = some ⟨.running (a.next (.error a.failure)), a.calls, a.passes⟩ ∧
    -- It has the lock of a bus once for each of its deliveries there; it has none to write, and waits for none.
    (∀ b bs, (x.state (a.left + 1)).bus b = some bs →
      bs.lock.holders.count ⟨a.task, .read⟩ = (a.passes.map Pass.bus).count b ∧
      ⟨a.task, .write⟩ ∉ bs.lock.holders ∧ ∀ c ∈ bs.lock.queue, c.task ≠ a.task) ∧
    -- No delivery that was begun inside of the call is in progress any more, with its lock or without;
    (∀ b m j, a.made < m → m ≤ a.left → a.left < j → ¬ x.Encloses a.task b m j) ∧
    (∀ (e : Errand) (q : x.Passage e), q.task = a.task → a.made < q.start → q.start ≤ a.left →
      ∀ j, a.left < j → ¬ x.Uncut q.task q.calls.length q.start j ∧ ∀ vs d, ¬ q.Answers vs d j) ∧
    -- whoever is called from then on is called by the caller, or inside of a call that it has made since.
    (∀ n callee, a.left < n → x.Uncut a.task a.calls.length (a.left + 1) n → x.callBy a.task n = some callee →
      ∃ m callee', a.left < m ∧ m ≤ n ∧ x.callAt a.task a.calls.length m = some callee') ∧
    -- The listeners stay as they are, and no change takes effect later that the task had asked for by then.
    (∀ b, x.listeners b (a.left + 1) = x.listeners b a.left) ∧
    (∀ b edit n, a.left ≤ n → x.turn n = some a.task → x.edit b n = some edit →
      ∃ calls next m, a.left < m ∧ m < n ∧ x.Awaits a.task calls (.edit b edit) next m n) ∧
    -- If the call is one of a delivery,
    (∀ (e : Errand) (p : x.Passage e), a.IsMadeIn p →
      ∃ us l rest, x.Tours p.task p.calls e us p.start a.made ∧ e.meant = us.map Visit.listener ++ l :: rest ∧
        a.callee = e.call l ∧
        -- the failure is recorded and counted, and the next listener is called:
        a.next (.error a.failure) = .perform (.record (Bus.failureRecord e.cast e.event l a.failure))
          (fun _ => e.onward p.next rest ((tally e.cast us).failed (e.cast.name l) a.failure)) ∧
        -- the delivery is under way until it is answered, unless it is cut off as well;
        (∀ j, a.left < j → x.Uncut a.task a.calls.length (a.left + 1) j →
          p.IsUnderway j ∨ ∃ n vs d, n ≤ j ∧ p.Answers vs d n) ∧
        -- it is answered if the calls of the listeners that are left come to an end;
        (x.Attends p.task → (∀ j, x.Uncut a.task a.calls.length (a.left + 1) j) →
          (∀ l' ∈ rest, x.Ends p.task p.calls e l') → ∃ n vs d, p.Answers vs d n) ∧
        -- and the answer has one failure for the call, between those of the listeners before and after.
        ∀ n vs d, p.Answers vs d n → ∃ earlier v later, vs = earlier ++ v :: later ∧
          earlier.map Visit.listener = us.map Visit.listener ∧ v.listener = l ∧
          later.map Visit.listener = rest ∧ v.made = a.made ∧ v.left = a.left ∧
          d.delivered = (tally e.cast earlier).delivered + (tally e.cast later).delivered ∧
          d.failures = (tally e.cast earlier).failures
            ++ ⟨e.cast.name l, a.failure⟩ :: (tally e.cast later).failures) ∧
    -- If it is one of a launch or a shutdown, the failure meets with the policy for it: among assertions, among
    -- preparations, in a phase, and among the modules that are shut down.
    ((∀ l event, a.callee ≠ .onEvent l event) →
      (∀ cast name e passed slots, a.MeetsIn (Ensemble.assertFrom cast name e passed slots)
        fun _ ds' P => AssertionAftermath cast slots a.callee a.failure ds' P) ∧
      (∀ cast limit ls, a.MeetsIn (Ensemble.prepareAll cast limit ls)
        fun _ ds' _ => PreparationAftermath ls a.callee ds') ∧
      (∀ cast name e phase ran passed faults slots,
        a.MeetsIn (Ensemble.runSlots cast name e phase ran passed faults slots)
          fun ds ds' P => PhaseAftermath cast phase slots faults a.callee a.failure ds ds' P) ∧
      ∀ cast name e positions c, a.MeetsIn (Ensemble.closeSlots cast name e positions c)
        fun ds ds' c' => ClosingAftermath cast c.failures a.callee a.failure ds ds' c') ∧
    -- From then on the lock of a bus is held to read once for each delivery there that is in progress, whosever
    -- it is, besides those who have been granted it and have not had a turn since.
    (x.IsOrderly → ∀ n, a.left < n → ∀ b bs, (x.state n).bus b = some bs →
      ∃ (deliveries : List (TaskId × Nat)) (guests : List TaskId),
        (deliveries.Nodup ∧ ∀ u m, (u, m) ∈ deliveries ↔ x.Encloses u b m n) ∧
        (guests.Nodup ∧ ∀ u, u ∈ guests ↔ x.IsLetIn u b n) ∧
        bs.readers.length = deliveries.length + guests.length) := by
  refine ⟨a.after, fun b bs hbs => claims_of_running a.after hbs, fun b m j => a.not_encloses,
    fun e q htask hm hm' j => a.never_answered q htask hm hm', fun n callee => a.called_since, a.listeners_eq,
    fun b edit n => a.edit_asked_since, fun e p h => ?_, fun hcallee => ⟨?_, ?_, ?_, ?_⟩,
    fun hx n _ b bs hbs => readers_length hx hbs⟩
  · obtain ⟨us, l, rest, htour, hmeant, hcallee, hlimit, hnext⟩ := h.goesOn
    refine ⟨us, l, rest, htour, hmeant, hcallee, hnext, fun j hj huncut => ?_, fun hattends huncut hends => ?_,
      fun n vs d => h.counted htour hmeant⟩
    · have hstart : p.start ≤ j := Nat.le_trans h.start_le (Nat.le_of_lt (Nat.lt_trans a.made_lt hj))
      exact p.followed (h.uncut_of huncut) hstart
    · exact h.answered htour hmeant hcallee hlimit hnext hattends huncut hends
  · intro cast name e passed slots
    exact Abandonment.meetsIn_of (AssertionCourse cast passed slots) hcallee
      (fun _ _ => Ensemble.assertFrom_course) fun _ _ _ => AssertionCourse.aftermath
  · intro cast limit ls
    exact Abandonment.meetsIn_of (fun ds _ => PreparationCourse ls ds) hcallee
      (fun _ _ => Ensemble.prepareAll_course) fun _ _ _ => PreparationCourse.aftermath
  · intro cast name e phase ran passed faults slots
    exact Abandonment.meetsIn_of (PhaseCourse cast phase passed faults slots) hcallee
      (fun _ _ => Ensemble.runSlots_course) fun _ _ _ => PhaseCourse.aftermath
  · intro cast name e positions c
    exact Abandonment.meetsIn_of (StoppingCourse cast positions c) hcallee
      (fun _ _ => Ensemble.closeSlots_course) fun _ _ _ => StoppingCourse.aftermath

/-- Listeners of the first of two buses may take 5 ms. -/
def Cast.brisk : Cast :=
  { Cast.sample with listenerLimit := fun b => if b = 0 then some (.ofMillis 5) else none }

/-- One listener publishes on the second bus, where another one registers a third on the first; and somebody
publishes on the first bus when it is prepared. -/
def World.knotted : World .bare where
  cast := .brisk
  body
    | .onEvent 2 _ => Bus.publish .brisk 1 .aside none >>= fun _ => .done (.ok ())
    | .onEvent 3 _ => Bus.register .brisk 0 5 >>= fun _ => .done (.ok ())
    | .prepare 7 => Bus.publish .brisk 0 .request none >>= fun _ => .done (.ok ())
    | _ => .done (.ok ())
  job _ := .done (.ok ())

theorem World.knotted_isOrderly : World.knotted.IsOrderly where
  body callee := by
    unfold World.knotted
    dsimp only
    split
    · exact (Bus.obeys_publish _ _ _ _).bind fun _ => rfl
    · exact (Bus.obeys_register _ _ _).bind fun _ => rfl
    · exact (Bus.obeys_publish _ _ _ _).bind fun _ => rfl
    · rfl
  job _ := rfl

/-- Listeners are registered on both buses; then something is done, and one more is registered. -/
def Program.knotted {α : Type} (p : Program .bare α) : Program .bare Outcome := do
  let _ ← Bus.register .brisk 0 2
  let _ ← Bus.register .brisk 0 4
  let _ ← Bus.register .brisk 1 3
  let _ ← p
  let _ ← Bus.register .brisk 0 6
  .resting

theorem Program.knotted_obeys {α : Type} {p : Program .bare α} (hp : p.Obeys .free) :
    (Program.knotted p).Obeys .free :=
  (Bus.obeys_register _ _ _).bind fun _ => (Bus.obeys_register _ _ _).bind fun _ =>
    (Bus.obeys_register _ _ _).bind fun _ => hp.bind fun _ => (Bus.obeys_register _ _ _).bind fun _ =>
      Program.resting_obeys

/-- Something that is told to the two listeners of the first bus. -/
def Errand.brisk : Errand := ⟨.brisk, 0, [2, 4], by decide, .request, none⟩

namespace Machine.Execution

/-- The main task takes its steps until it waits to register a listener on the bus that is delivering to it, the
clock moves, and the main task takes the rest of its steps. -/
def knotted {α : Type} (p : Program .bare α) (first rest : Nat) : Execution World.knotted :=
  .directed _ 2 (.knotted p) ()
    (List.replicate first (.step 0) ++ [.park 0, .tick] ++ List.replicate rest (.step 0))

/-- An event is published on the first bus. -/
abbrev published : Execution World.knotted := knotted (Bus.publish .brisk 0 .request none) 21 10

/-- Two listeners are prepared, each of which may take 3 ms. -/
abbrev prepared : Execution World.knotted :=
  knotted (Ensemble.prepareAll .brisk (some (.ofMillis 3)) [7, 8]) 22 9

variable {α : Type} {p : Program .bare α} {first rest made left : Nat}

/-- A call that the main task makes by itself, and that outlasts its limit. -/
def outlasting {callee : Callee} {d : Duration} {next : Outcome → Program .bare Outcome} {passes : List Pass}
    (hbegins : ((knotted p first rest).state made).core 0
      = some ⟨.running (.perform (.call callee (some d)) next), [], passes⟩)
    (hcalled : (knotted p first rest).turn made = some 0) (hmade : made < left)
    (hinside : ∀ n, n ≤ left → made + 1 ≤ n →
      (((knotted p first rest).state n).core 0).any (Core.isWithin 1) = true)
    (houtlasts : (knotted p first rest).Outlasts 0 [] (some d) d made left)
    (hturn : (knotted p first rest).turn left = some 0)
    (hout : ∃ k, ((knotted p first rest).state (left + 1)).core 0 = some k ∧ k.doing ≠ .ended ∧
      k.calls.length = 0) : (knotted p first rest).Abandonment where
  task := 0
  callee := callee
  limit := some d
  next := next
  calls := []
  passes := passes
  made := made
  left := left
  failure := .timedOut d
  begins := hbegins
  called := hcalled
  made_lt := hmade
  inside := uncut_of_isWithin hinside
  cut := .outlasts houtlasts
  turn := hturn
  out := hout
  keeps := directed_keepsLimits 0

end Machine.Execution

open Machine.Execution in
set_option maxRecDepth 4000 in
/-- A listener is cut off while another one, inside of two deliveries, waits to register a third on the bus of
the first; and so is somebody who is prepared. -/
theorem abandoned_calls_leave_nothing_knotted :
    (∃ (a : published.Abandonment) (p : published.Passage .brisk) (n : Nat) (vs later : List Visit)
      (d : Delivery),
      a.callee = .onEvent 2 .request ∧ a.left = 24 ∧ p.task = a.task ∧ p.Answers vs d n ∧
      later.map Visit.listener = [4] ∧
      d.failures = ⟨Cast.brisk.name 2, .timedOut (.ofMillis 5)⟩ :: (tally .brisk later).failures ∧
      (∀ bs, (published.state 25).bus 0 = some bs →
        bs.lock.holders.count ⟨0, .read⟩ = 1 ∧ ∀ c ∈ bs.lock.queue, c.task ≠ 0) ∧
      (∀ bs, (published.state 25).bus 1 = some bs →
        bs.lock.holders.count ⟨0, .read⟩ = 0 ∧ ∀ u m, ¬ published.Encloses u 1 m 25) ∧
      published.listeners 0 25 = published.listeners 0 24 ∧
      ∃ calls next m, 24 < m ∧ published.Awaits 0 calls (.edit 0 (.add 6)) next m 31) ∧
    ∃ (a : prepared.Abandonment) (n : Nat) (q : Program .bare Unit) (nx : Unit → Program .bare Outcome)
      (tr : List (Exchange .bare)),
      a.callee = .prepare 7 ∧ prepared.Returns 0 [] q nx (a.left + 1) n tr () ∧
      PreparationAftermath [7, 8] (.prepare 7) (deeds tr) := by
  constructor
  · have hclock : (published.state 34).tick = none := rfl
    have hwithin : ∀ n, n ≤ 34 → 16 ≤ n → ((published.state n).core 0).any (Core.isWithin 0) = true := by
      decide +kernel
    have hinside : ∀ n, n ≤ 24 → 17 ≤ n → ((published.state n).core 0).any (Core.isWithin 1) = true := by
      decide +kernel
    have hstart : (published.state 16).core 0 = some ⟨.running ((Errand.brisk.program >>= Delivery.noted) >>=
      fun _ => Bus.register .brisk 0 6 >>= fun _ => .resting), [], [⟨0, [2, 4]⟩]⟩ := rfl
    obtain ⟨next, hbegins⟩ : ∃ next, (published.state 16).core 0 = some ⟨.running (.perform
      (.call (.onEvent 2 .request) (some (.ofMillis 5))) next), [], [⟨0, [2, 4]⟩]⟩ := ⟨_, rfl⟩
    have houtlasts : published.Outlasts 0 [] (some (.ofMillis 5)) (.ofMillis 5) 16 24 :=
      ⟨rfl, by decide, _, [_], _, _, rfl⟩
    let a : published.Abandonment :=
      outlasting hbegins rfl (by decide) hinside houtlasts rfl ⟨_, rfl, by rintro ⟨⟩, rfl⟩
    let p : published.Passage .brisk :=
      { task := 0, calls := [], passes := [⟨0, [2, 4]⟩], start := 16, keeps := directed_keepsLimits 0,
        next := fun d => d.noted >>= fun _ => Bus.register .brisk 0 6 >>= fun _ => .resting,
        begins := by rw [hstart, bind_assoc] }
    have huncut : ∀ i j, 16 ≤ i → published.Uncut 0 0 i j := fun i j hi =>
      (directed_uncut hclock hwithin (by decide) j).tail hi
    have hmade : a.IsMadeIn p := by
      refine ⟨rfl, rfl, Nat.le_refl _, huncut 16 16 (Nat.le_refl _), fun n vs d hn h => ?_⟩
      have hheard := h.heard_eq
      obtain rfl : n = 16 := Nat.le_antisymm hn h.tour.le
      rw [Passage.heard, heard_self] at hheard
      cases hheard
    obtain ⟨-, hclaims, -, -, -, hlisteners, hedits, hdelivery, -, hreaders⟩ := abandoned_calls_leave_nothing a
    obtain ⟨us, l, rest, htour, hmeant, hcallee, -, -, hanswered, hcounts⟩ := hdelivery .brisk p hmade
    obtain ⟨n, vs, d, h⟩ := hanswered (directed_attends hclock rfl rfl rfl)
      (fun j => huncut 25 j (by decide)) (fun l' _ => directed_ends hclock rfl (Nat.le_refl 0))
    obtain ⟨earlier, v, later, -, hsame, -, hrest, -, -, -, hfailures⟩ := hcounts n vs d h
    -- The listener is the first one, and so nobody has been called before.
    obtain rfl : us = [] := by
      have hheard := htour.heard
      rw [show p.start = a.made from rfl, heard_self] at hheard
      exact List.map_eq_nil_iff.1 (List.map_eq_nil_iff.1 hheard.symm)
    obtain rfl := List.map_eq_nil_iff.1 hsame
    obtain ⟨rfl, rfl⟩ := List.cons.inj hmeant
    obtain ⟨calls, next', m, hm, -, hawaits⟩ := hedits 0 (.add 6) 31 (show 24 ≤ 31 by decide) rfl rfl
    have hx : published.IsOrderly :=
      directed_isOrderly World.knotted_isOrderly (Program.knotted_obeys (Bus.obeys_publish _ _ _ _))
    refine ⟨a, p, n, vs, later, d, rfl, rfl, rfl, h, hrest, hfailures, fun bs hbs => ?_, fun bs hbs => ?_,
      hlisteners 0, calls, next', m, hm, hawaits⟩
    · obtain ⟨hone, -, hnone⟩ := hclaims 0 bs hbs
      exact ⟨hone, hnone⟩
    · obtain ⟨deliveries, guests, ⟨-, hmem⟩, -, hlength⟩ := hreaders hx 25 (show 24 < 25 by decide) 1 bs hbs
      have hnobody : ((published.state 25).bus 1).map (fun bs => bs.readers.length) = some 0 := rfl
      rw [hbs, Option.map_some, Option.some.injEq, hlength] at hnobody
      obtain rfl : deliveries = [] := List.length_eq_zero_iff.1 (by omega)
      exact ⟨(hclaims 1 bs hbs).1, fun u m henc => absurd ((hmem u m).2 henc) List.not_mem_nil⟩
  · have hwithin : ∀ n, n ≤ 34 → 26 ≤ n → ((prepared.state n).core 0).any (Core.isWithin 0) = true := by
      decide +kernel
    have hinside : ∀ n, n ≤ 25 → 14 ≤ n → ((prepared.state n).core 0).any (Core.isWithin 1) = true := by
      decide +kernel
    obtain ⟨next, hbegins⟩ : ∃ next, (prepared.state 13).core 0 = some ⟨.running (.perform
      (.call (.prepare 7) (some (.ofMillis 3))) next), [], []⟩ := ⟨_, rfl⟩
    have houtlasts : prepared.Outlasts 0 [] (some (.ofMillis 3)) (.ofMillis 3) 13 25 :=
      ⟨rfl, by decide, _, [_, _], _, _, rfl⟩
    let a : prepared.Abandonment :=
      outlasting hbegins rfl (by decide) hinside houtlasts rfl ⟨_, rfl, by rintro ⟨⟩, rfl⟩
    obtain ⟨-, -, -, -, -, -, -, -, hpolicy, -⟩ := abandoned_calls_leave_nothing a
    obtain ⟨-, hprepares, -⟩ := hpolicy (by rintro _ _ ⟨⟩)
    let nx : Unit → Program .bare Outcome := fun _ => Bus.register .brisk 0 6 >>= fun _ => .resting
    have hprogram : (prepared.state 13).core 0 = some ⟨.running
      (Ensemble.prepareAll .brisk (some (.ofMillis 3)) [7, 8] >>= nx), [], []⟩ := rfl
    have hamid : prepared.Amid 0 [] (Ensemble.prepareAll .brisk (some (.ofMillis 3)) [7, 8]) nx 13 13 :=
      .idle (.start _) (.nil 13) (Nat.le_refl 13) hprogram
    obtain ⟨tr, q, hleads, -, -, hgoes⟩ := hprepares .brisk (some (.ofMillis 3)) [7, 8] nx 13 hamid
    rcases hgoes 29 (show 25 < 29 by decide) (uncut_of_isWithin fun n hn hn' => hwithin n (by omega) hn') with
      hamid' | ⟨n, tr', _, -, hreturns, -, hafter⟩
    · -- The listener that is registered afterwards is no part of the preparations.
      obtain ⟨nxt, hedit⟩ : ∃ nxt, (prepared.state 29).core 0
        = some ⟨.running (.perform (.edit 0 (.add 6)) nxt), [], []⟩ := ⟨_, rfl⟩
      have honly := (hleads.only (Ensemble.prepareAll_prepares _ _)).2 (.error (.timedOut (.ofMillis 3)))
      obtain ⟨op, hop, hserves⟩ := hamid'.serves honly hedit rfl
      obtain rfl : Op.edit 0 (.add 6) = op := hserves
      exact hop.elim
    · exact ⟨a, n, _, nx, tr', rfl, hreturns, hafter⟩

end Orchestra
