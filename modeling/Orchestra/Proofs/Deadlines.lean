import Orchestra.Proofs.Fates

/-!
# Calls come to an end

A task that gets its turn whenever it can go on cannot stay inside a call for ever, unless it waits there
without a limit or calls one body inside the other without end.

* `Execution.Attends` — a task gets its turn, and the clock comes to its deadlines;
* `Execution.directed_attends` — so it is with given moves that end with the task's last step;
* `State.ready_of_running`, `State.ready_of_due` — who can take a step;
* `Execution.wait_ends` — nobody waits past a deadline for ever;
* `World.Closes` — a call whose body waits within a limit only, and whose own calls close;
* `Execution.body_ends`, `Execution.ends_of_closes` — such a call is not in progress for ever.
-/

namespace Orchestra

variable {A : Application}

/-- An operation that is no call and that nobody has to wait for. -/
def Op.IsPrompt (op : Op A) : Prop := op.CallsNobody ∧ ∀ next wait, ¬ op.WaitsIn next wait

/-- A call that comes to an end: the body waits for something only if the call has a limit, and the calls
that it makes come to an end. -/
inductive World.Closes (w : World A) : Option Duration → Callee → Prop where
  | intro {limit : Option Duration} {callee : Callee} :
      (∀ tr op, (w.body callee).Asks tr op → op.CallsNobody → op.IsPrompt ∨ limit.isSome) →
      (∀ tr callee' limit', (w.body callee).Asks tr (.call callee' limit') → w.Closes limit' callee') →
      w.Closes limit callee

namespace Machine

/-! ### Who can take a step -/

namespace State

variable {w : World A} {s s' : State A} {t : TaskId} {k : Core A} {calls : Calls A} {passes : List Pass}
  {wait : Wait A}

/-- Whoever runs can take a step. -/
theorem ready_of_running {p : Program A Outcome} (h : s.core t = some ⟨.running p, calls, passes⟩) :
    (s.advance w t).isSome := by
  obtain ⟨k, hk, hcore⟩ := Option.map_eq_some_iff.1 h
  have hdoing : k.status.doing = .running p := congrArg Core.doing hcore
  rw [advance, hk]
  dsimp only
  cases hstatus : k.status with
  | running q => rfl
  | waiting wait stamp => rw [hstatus] at hdoing; cases hdoing
  | ended e => rw [hstatus] at hdoing; cases hdoing

theorem expired_of_due {now due : Nat} {d : Duration} {frames : List (Frame A)}
    (h : some (d, due) ∈ frames.map Frame.limit) (hdue : due ≤ now) :
    (expired now frames).isSome := by
  induction frames with
  | nil => cases h
  | cons f rest ih =>
    rw [expired]
    cases hguard : f.guard with
    | none =>
      rcases List.mem_cons.1 h with heq | hmem
      · rw [Frame.limit, hguard] at heq
        cases heq
      · exact ih hmem
    | some g =>
      dsimp only
      split
      · rfl
      · next hlater =>
        rcases List.mem_cons.1 h with heq | hmem
        · rw [Frame.limit, hguard] at heq
          cases heq
          exact absurd hdue hlater
        · exact ih hmem

/-- Whoever waits past a deadline can take a step. -/
theorem ready_of_due {d : Duration} {due : Nat} (h : s.core t = some ⟨.waiting wait, calls, passes⟩)
    (hlimit : some (d, due) ∈ s.limits t) (hdue : due ≤ s.now) : (s.advance w t).isSome := by
  obtain ⟨k, wait', stamp, hk, hstatus, -⟩ := waits_of_core h
  rw [limits, frames_of_task hk] at hlimit
  obtain ⟨⟨f, limit, rest⟩, hexpired⟩ := Option.isSome_iff_exists.1 (expired_of_due hlimit hdue)
  rw [advance, hk]
  dsimp only
  rw [hstatus]
  dsimp only
  split
  · rfl
  · split
    · rfl
    · rw [hexpired]
      rfl

/-- Whoever still waits after a step is about to replace the listeners of a bus. -/
theorem waits_of_advance {wait' : Wait A} {passes' : List Pass} (hadvance : s.advance w t = some s')
    (hk : s.core t = some ⟨.waiting wait, calls, passes⟩)
    (hk' : s'.core t = some ⟨.waiting wait', calls, passes'⟩) :
    ∃ b e copy next, wait' = .replacing b e copy next := by
  have hended : (⟨.waiting wait', calls, passes'⟩ : Core A).doing ≠ .ended := nofun
  have hdepth : calls.length ≤ (⟨.waiting wait', calls, passes'⟩ : Core A).calls.length := Nat.le_refl _
  obtain ⟨c, c', hc, hc', hstep⟩ := (advance_stepped hadvance).own
  obtain rfl := Option.some.inj (hk.symm.trans hc)
  obtain rfl := Option.some.inj (hk'.symm.trans hc')
  obtain ⟨wait₀, hbare, hproceed, -⟩ := proceed_of_advance hadvance hk' hended hdepth hk
  have hresumed : ∀ p, s.resume t p ≠ s' := by
    rintro p rfl
    rw [resume, core_setStatus hk] at hk'
    cases hk'
  cases wait₀ with
  | beginning b next =>
    obtain rfl := hbare
    obtain ⟨bs, -, -, heq⟩ := Step.of_beginning hended hdepth hstep
    cases heq
  | reading b next =>
    obtain rfl := hbare
    obtain ⟨bs, -, -, heq⟩ := Step.of_reading hended hdepth hstep
    cases heq
  | editing b e next =>
    obtain rfl := hbare
    obtain ⟨copy, heq⟩ := Step.of_editing hended hdepth hstep
    cases heq
    exact ⟨b, e, copy, next, rfl⟩
  | replacing b e copy next =>
    obtain rfl := hbare
    cases Step.of_replacing hended hdepth hstep
  | _ =>
    obtain ⟨p, -, rfl⟩ := resumes_of_proceed rfl hproceed
    exact absurd rfl (hresumed p)

end State

namespace Execution

variable {w : World A} {x : Execution w} {t : TaskId} {d i j m n : Nat} {k : Core A} {calls : Calls A}
  {passes : List Pass}

/-- Task `t` gets its turn whenever it can take a step, and the clock comes to the deadlines of the calls
that it does not leave before. -/
structure Attends (x : Execution w) (t : TaskId) : Prop where
  served : ∀ n, ((x.state n).advance w t).isSome → ∃ m, n ≤ m ∧ x.turn m = some t
  clock : ∀ n limit due, some (limit, due) ∈ (x.state n).limits t →
    ∃ m, n ≤ m ∧ (due ≤ (x.state m).now ∨ some (limit, due) ∉ (x.state m).limits t)

section Directed

variable {buses : Nat} {p : Program A Outcome} {memory : A.Memory} {moves : List Move}

/-- A task gets its turn whenever it can take a step if it can take none after its last one, and it is inside of no
call in the end. -/
theorem directed_attends_until {l : Nat}
    (hclock : ((Execution.directed w buses p memory moves).state (moves.length + 1)).tick = none)
    (hturn : (Execution.directed w buses p memory moves).turn l = some t)
    (hrests : ∀ n, n ≤ moves.length + 1 → l < n →
      ((Execution.directed w buses p memory moves).state n).advance w t = none)
    (hlast : l ≤ moves.length)
    (hfree : ((Execution.directed w buses p memory moves).state (moves.length + 1)).limits t = []) :
    (Execution.directed w buses p memory moves).Attends t := by
  refine ⟨fun n hready => ⟨l, Nat.le_of_not_lt fun hn => ?_, hturn⟩, fun n limit due _ => ?_⟩
  · have hnone := directed_forever (P := fun s => s.advance w t = none) hclock hrests (Nat.succ_le_succ hlast) hn
    rw [hnone] at hready
    cases hready
  · refine ⟨max n (moves.length + 1), Nat.le_max_left _ _, .inr ?_⟩
    rw [directed_rest hclock (Nat.le_max_right _ _), hfree]
    exact List.not_mem_nil

/-- So it is if the moves end with its last step. -/
theorem directed_attends
    (hclock : ((Execution.directed w buses p memory moves).state (moves.length + 1)).tick = none)
    (hturn : (Execution.directed w buses p memory moves).turn moves.length = some t)
    (hrests : ((Execution.directed w buses p memory moves).state (moves.length + 1)).advance w t = none)
    (hfree : ((Execution.directed w buses p memory moves).state (moves.length + 1)).limits t = []) :
    (Execution.directed w buses p memory moves).Attends t :=
  directed_attends_until hclock hturn (fun _ hn hl => Nat.le_antisymm hn hl ▸ hrests) (Nat.le_refl _) hfree

/-- A task that is within `d` calls until all moves have been made is so ever after. -/
theorem directed_uncut
    (hclock : ((Execution.directed w buses p memory moves).state (moves.length + 1)).tick = none)
    (hwithin : ∀ n, n ≤ moves.length + 1 → i ≤ n →
      (((Execution.directed w buses p memory moves).state n).core t).any (Core.isWithin d) = true)
    (hi : i ≤ moves.length + 1) (j : Nat) : (Execution.directed w buses p memory moves).Uncut t d i j :=
  uncut_of_isWithin fun _ _ hn =>
    directed_forever (P := fun s => (s.core t).any (Core.isWithin d) = true) hclock hwithin hi hn

end Directed

/-- The first step of a task that gets its turn. -/
theorem acts_of_turn (huncut : x.Uncut t d i (m + 1)) (him : i ≤ m)
    (hk : (x.state i).core t = some k) (hturn : x.turn m = some t) :
    ∃ n k', x.Acts t d k i n k' := by
  rcases first_turn (huncut.mono (Nat.le_refl i) (Nat.le_succ m)) him hk with hrests | ⟨n, k', -, hacts⟩
  · obtain ⟨k', hk', hended, hdepth⟩ := huncut (m + 1) (Nat.le_succ_of_le him) (Nat.le_refl _)
    exact ⟨m, k', him, hrests, hturn, hk', step_of_turn hturn (hrests.last him) hk', hended, hdepth⟩
  · exact ⟨n, k', hacts⟩

/-- Whoever runs takes a step. -/
theorem Attends.acts (hattends : x.Attends t) {p : Program A Outcome} (huncut : ∀ n, x.Uncut t d i n)
    (hk : (x.state i).core t = some ⟨.running p, calls, passes⟩) :
    ∃ n k', x.Acts t d ⟨.running p, calls, passes⟩ i n k' := by
  obtain ⟨m, him, hturn⟩ := hattends.served i (State.ready_of_running hk)
  exact acts_of_turn (huncut (m + 1)) him hk hturn

/-- **Nobody waits past a deadline for ever.** -/
theorem wait_ends (hattends : x.Attends t) {limit : Duration} {due : Nat}
    (hlimit : ∀ n, i ≤ n → some (limit, due) ∈ (x.state n).limits t) :
    ¬ ∀ n, i ≤ n → ∃ wait passes, (x.state n).core t = some ⟨.waiting wait, calls, passes⟩ := by
  intro hwaits
  -- Past the deadline the task gets its turn again and again.
  have hturns : ∀ n, i ≤ n → ∃ m, n ≤ m ∧ x.turn m = some t := by
    intro n hn
    obtain ⟨m, hm, hpast⟩ := hattends.clock n limit due (hlimit n hn)
    have hdue := hpast.resolve_right (not_not_intro (hlimit m (Nat.le_trans hn hm)))
    obtain ⟨wait, passes, hwait⟩ := hwaits m (Nat.le_trans hn hm)
    obtain ⟨m', hm', hturn⟩ := hattends.served m
      (State.ready_of_due hwait (hlimit m (Nat.le_trans hn hm)) hdue)
    exact ⟨m', Nat.le_trans hm hm', hturn⟩
  have huncut : ∀ a b, i ≤ a → x.Uncut t calls.length a b := by
    intro a b ha n hn _
    obtain ⟨wait, passes, hwait⟩ := hwaits n (Nat.le_trans ha hn)
    exact ⟨_, hwait, nofun, Nat.le_refl _⟩
  -- With its first turn it comes to be about to replace listeners, and with the next one it does so.
  obtain ⟨m, hm, hturn⟩ := hturns i (Nat.le_refl i)
  obtain ⟨wait, passes, hbefore⟩ := hwaits m hm
  obtain ⟨wait', passes', hafter⟩ := hwaits (m + 1) (Nat.le_succ_of_le hm)
  obtain ⟨b, e, copy, next, rfl⟩ := State.waits_of_advance (advance_of_turn hturn) hbefore hafter
  obtain ⟨m', hm', hturn'⟩ := hturns (m + 1) (Nat.le_succ_of_le hm)
  obtain ⟨n, k', hacts⟩ := acts_of_turn (huncut (m + 1) (m' + 1) (Nat.le_succ_of_le hm)) hm' hafter hturn'
  obtain rfl := Step.of_replacing hacts.goesOn hacts.depth hacts.step
  obtain ⟨wait'', passes'', hwait⟩ := hwaits (n + 1) (Nat.le_trans hm (Nat.le_trans (Nat.le_succ m)
    (Nat.le_succ_of_le hacts.le)))
  cases hacts.after.symm.trans hwait

/-- Whoever waits for the answer to an operation that is no call waits indeed. -/
theorem Awaits.waits {op : Op A} {next : op.Answer → Program A Outcome}
    (h : x.Awaits t calls op next m n) (hop : op.CallsNobody) (hmn : m < n) :
    ∃ wait passes, op.WaitsIn next wait ∧ (x.state n).core t = some ⟨.waiting wait, calls, passes⟩ := by
  obtain ⟨k, hk, ⟨wait, passes, hwait, rfl⟩ | hcalled⟩ := h.pends n hmn (Nat.le_refl n)
  · exact ⟨wait, passes, hwait, hk⟩
  · cases op with
    | call callee limit => exact hop.elim
    | _ => exact hcalled.elim

/-- Whoever has asked for something that is answered at once, or has a deadline, is answered. -/
theorem answer_comes (hattends : x.Attends t) {op : Op A} {next : op.Answer → Program A Outcome}
    (hop : op.CallsNobody) (hends : op.IsPrompt ∨
      ∃ limit due, ∀ n, m < n → some (limit, due) ∈ (x.state n).limits t) :
    ¬ ∀ n, m ≤ n → x.Awaits t calls op next m n := by
  intro hawaits
  rcases hends with hprompt | ⟨limit, due, hlimit⟩
  · obtain ⟨wait, passes, hwait, -⟩ := (hawaits (m + 1) (Nat.le_succ m)).waits hop (Nat.lt_succ_self m)
    exact hprompt.2 _ _ hwait
  · have hwaiting : ∀ n, m + 1 ≤ n →
        ∃ wait passes, (x.state n).core t = some ⟨.waiting wait, calls, passes⟩ := by
      intro n hn
      obtain ⟨wait, passes, -, hwait⟩ := (hawaits n (Nat.le_of_succ_le hn)).waits hop hn
      exact ⟨wait, passes, hwait⟩
    exact wait_ends hattends hlimit hwaiting

/-- A body whose operations are all answered leaves its call. -/
theorem body_ends (hattends : x.Attends t) {body : Program A Outcome}
    {f : Nat × (Outcome → Program A Outcome)} (huncut : ∀ n, x.Uncut t (calls.length + 1) m n)
    (hanswered : ∀ tr op rest i, body.Leads tr (.perform op rest) → m ≤ i →
      ¬ ∀ n, i ≤ n → x.Awaits t (f :: calls) op rest i n) :
    (x.state m).core t ≠ some ⟨.running body, f :: calls, passes⟩ := by
  -- Whatever is left of the body, the task does not get to the end of it.
  have hnever : ∀ (p : Program A Outcome) (tr : List (Exchange A)) (i : Nat) (passes' : List Pass),
      body.Leads tr p → m ≤ i → (x.state i).core t ≠ some ⟨.running p, f :: calls, passes'⟩ := by
    intro p
    induction p with
    | done o =>
      intro tr i passes' _ hi hk
      obtain ⟨n, k', hacts⟩ := hattends.acts (fun n => (huncut n).tail hi) hk
      exact not_acts_of_done hacts
    | perform op rest ihp =>
      intro tr i passes' hleads hi hk
      have huncut' : ∀ n, x.Uncut t (calls.length + 1) i n := fun n => (huncut n).tail hi
      obtain ⟨m', k', hacts⟩ := hattends.acts huncut' hk
      have hlater := Nat.le_trans hi hacts.le
      refine hanswered tr op rest m' hleads hlater fun n hn => ?_
      rcases hacts.asked.followed hn ((huncut' n).tail hacts.le) with
        hawaits | ⟨l, answer, passes'', -, -, hanswers, hafter⟩
      · exact hawaits
      · have hl : m ≤ l + 1 := Nat.le_succ_of_le (Nat.le_trans hlater hanswers.le)
        exact absurd hafter (ihp answer _ _ _ (hleads.snoc answer) hl)
  exact hnever body [] m passes (.start _) (Nat.le_refl m)

/-- So a call is left in whose body every operation is answered. -/
theorem call_ends (hattends : x.Attends t) {callee : Callee} {limit : Option Duration}
    {next : Outcome → Program A Outcome} (huncut : ∀ n, x.Uncut t calls.length m n)
    (hanswered : ∀ (f : Nat × (Outcome → Program A Outcome)) tr op rest i,
      (w.body callee).Leads tr (.perform op rest) → m < i → (∀ n, x.Uncut t (f :: calls).length i n) →
      ¬ ∀ n, i ≤ n → x.Awaits t (f :: calls) op rest i n) :
    ¬ ∀ n, m ≤ n → x.Awaits t calls (.call callee limit) next m n := by
  intro hawaits
  have hinside := uncut_of_forever hawaits huncut
  obtain ⟨passes, hbegin, -⟩ := (hawaits (m + 1) (Nat.le_succ m)).entered (Nat.lt_succ_self m)
    (huncut (m + 1))
  exact body_ends hattends hinside
    (fun tr op rest i hleads hi => hanswered _ tr op rest i hleads hi fun n => (hinside n).tail hi) hbegin

/-- **A call that closes is not in progress for ever.** -/
theorem ends_of_closes {limit : Option Duration} {callee : Callee}
    (hcloses : w.Closes limit callee) (hkeeps : x.KeepsLimits t) (hattends : x.Attends t)
    {next : Outcome → Program A Outcome} (huncut : ∀ n, x.Uncut t calls.length m n) :
    ¬ ∀ n, m ≤ n → x.Awaits t calls (.call callee limit) next m n := by
  induction hcloses generalizing calls next m with
  | @intro limit callee hwaits hcalls ih =>
  intro hawaits
  refine call_ends hattends huncut (fun f tr op rest i hleads hi hinside hforever => ?_) hawaits
  by_cases hop : op.CallsNobody
  · refine answer_comes hattends hop ((hwaits tr op ⟨rest, hleads⟩ hop).imp_right fun hlimit => ?_)
      hforever
    -- Inside of a call with a limit there is a deadline.
    obtain ⟨limit, rfl⟩ := Option.isSome_iff_exists.1 hlimit
    refine ⟨limit, (x.state m).now + limit.ceilMillis, fun n hn => ?_⟩
    have hmn : m < n := Nat.lt_trans hi hn
    exact ((hawaits n (Nat.le_of_lt hmn)).deadline hkeeps hmn (huncut n)).1.subset List.mem_cons_self
  · cases op with
    | call callee' limit' => exact ih tr callee' limit' ⟨rest, hleads⟩ hinside hforever
    | _ => exact absurd trivial hop

end Execution

end Machine

end Orchestra
