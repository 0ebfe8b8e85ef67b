import Orchestra.Proofs.Calling
import Orchestra.Proofs.Deadlines

/-!
# What time it is

The clock counts milliseconds.  It stands still as long as somebody can go on, and it stops at every moment
for which somebody waits.

* `State.dues` — the moments for which a task waits, to go on with its program or to give up a call;
* `Execution.KeepsTime`, `Execution.Wakes`, `Execution.Lapses` — what one task sees of the clock;
* `KeepsTime.now_of_turn`, `Rests.now_of_running`, `KeepsTime.now_le` — what time it is while a task takes a
  step, goes on, or waits for a moment;
* `State.IsHeldUp` — a task that waits in vain, and can only give up one of its outermost calls;
* `State.isHeldUp_of_left` — so it is with whoever gives a call up;
* `Execution.cut_cases` — a task inside of a call is cut off from the caller only by those around them.
-/

namespace Orchestra.Machine

variable {A : Application}

/-! ### Moments -/

/-- The moments for which task `t` waits: that to which it sleeps, or the deadline of a token or of a crew, and those
of the calls around it. -/
def State.dues (s : State A) (t : TaskId) : List Nat :=
  match s.core t with
  | some ⟨.waiting wait, _, _⟩ => wait.due?.toList ++ (s.limits t).filterMap fun l => l.map Prod.snd
  | _ => []

section Dues

variable {s : State A} {t : TaskId} {wait : Wait A} {calls : Calls A} {passes : List Pass} {due : Nat}

theorem State.mem_dues_iff (hk : s.core t = some ⟨.waiting wait, calls, passes⟩) :
    due ∈ s.dues t ↔ wait.due? = some due ∨ ∃ d, some (d, due) ∈ s.limits t := by
  rw [dues, hk]
  dsimp only
  rw [List.mem_append, Option.mem_toList, List.mem_filterMap]
  refine or_congr Iff.rfl ⟨?_, ?_⟩
  · rintro ⟨l, hl, hdue⟩
    obtain ⟨⟨d, due'⟩, rfl, rfl⟩ := Option.map_eq_some_iff.1 hdue
    exact ⟨d, hl⟩
  · rintro ⟨d, hlimit⟩
    exact ⟨_, hlimit, rfl⟩

/-- Whoever waits for a moment waits. -/
theorem State.waits_of_mem_dues (h : due ∈ s.dues t) :
    ∃ wait calls passes, s.core t = some ⟨.waiting wait, calls, passes⟩ := by
  unfold dues at h
  split at h
  · next wait calls passes hk => exact ⟨wait, calls, passes, hk⟩
  · cases h

/-- Whoever has waited for a moment that has come can take a step. -/
theorem State.ready_of_mem_dues {w : World A} (h : due ∈ s.dues t) (hdue : due ≤ s.now) :
    (s.advance w t).isSome := by
  obtain ⟨wait, calls, passes, hcore⟩ := State.waits_of_mem_dues h
  rcases (State.mem_dues_iff hcore).1 h with hwait | ⟨d, hlimit⟩
  · refine ready_of_proceed hcore ?_
    rintro wait' rfl
    cases wait' with
    | sleeping due' next =>
      obtain rfl : due' = due := Option.some.inj hwait
      rw [proceed, if_pos hdue]
      rfl
    | cancelledBy token due' next =>
      obtain rfl : due' = due := Option.some.inj hwait
      rw [proceed, if_pos hdue]
      split <;> rfl
    | crew crew due' next =>
      obtain rfl : due' = due := Option.some.inj hwait
      rw [proceed, if_pos hdue]
      split <;> rfl
    | _ => cases hwait
  · exact State.ready_of_due hcore hlimit hdue

end Dues

namespace Execution

variable {w : World A}

/-- The clock as task `t` sees it: it never goes back, stands still while the task can take a step, and does not
pass a moment for which the task waits. -/
structure KeepsTime (x : Execution w) (t : TaskId) : Prop where
  forward : ∀ n, (x.state n).now ≤ (x.state (n + 1)).now
  stands : ∀ n, ((x.state n).advance w t).isSome → (x.state (n + 1)).now = (x.state n).now
  stops : ∀ n due, due ∈ (x.state n).dues t → (x.state n).now < due → (x.state (n + 1)).now ≤ due

/-- The clock comes to the moment to which task `t` sleeps, unless the task goes on before. -/
def Wakes (x : Execution w) (t : TaskId) : Prop :=
  ∀ n due next calls passes, (x.state n).core t = some ⟨.waiting (.sleeping due next), calls, passes⟩ →
    ∃ m, n ≤ m ∧ (due ≤ (x.state m).now ∨ x.turn m = some t)

/-- The clock comes to the moment beyond which task `t` does not wait for a token, unless the task goes on before. -/
def Lapses (x : Execution w) (t : TaskId) : Prop :=
  ∀ n token due next calls passes,
    (x.state n).core t = some ⟨.waiting (.cancelledBy token due next), calls, passes⟩ →
    ∃ m, n ≤ m ∧ (due ≤ (x.state m).now ∨ x.turn m = some t)

variable {x : Execution w} {t : TaskId} {d i j m n due : Nat} {k k' : Core A} {calls : Calls A}
  {passes : List Pass} {wait : Wait A}

namespace KeepsTime

theorem le (h : x.KeepsTime t) (hij : i ≤ j) : (x.state i).now ≤ (x.state j).now := by
  induction hij with
  | refl => exact Nat.le_refl _
  | step _ ih => exact Nat.le_trans ih (h.forward _)

/-- No time passes with a step of the task. -/
theorem now_of_turn (h : x.KeepsTime t) (hturn : x.turn n = some t) :
    (x.state (n + 1)).now = (x.state n).now :=
  h.stands n (Option.isSome_iff_exists.2 ⟨_, advance_of_turn hturn⟩)

/-- **The clock does not pass a moment** as long as the task goes on, or waits for it. -/
theorem now_le (h : x.KeepsTime t) (hij : i ≤ j) (hnow : (x.state i).now ≤ due)
    (hdue : ∀ n, i ≤ n → n < j → ((x.state n).advance w t).isSome ∨ due ∈ (x.state n).dues t) :
    (x.state j).now ≤ due := by
  induction hij with
  | refl => exact hnow
  | @step j hij ih =>
    have hbefore := ih fun n hi hn => hdue n hi (Nat.lt_succ_of_lt hn)
    by_cases hready : ((x.state j).advance w t).isSome
    · rwa [h.stands j hready]
    · have hwaits := (hdue j hij (Nat.lt_succ_self j)).resolve_left hready
      exact h.stops j due hwaits (Nat.lt_of_not_le fun hle =>
        hready (State.ready_of_mem_dues hwaits hle))

end KeepsTime

/-- No time passes while a task goes on. -/
theorem Rests.now_of_running {p : Program A Outcome} (htime : x.KeepsTime t)
    (h : x.Rests t ⟨.running p, calls, passes⟩ i j) (hij : i ≤ j) :
    (x.state j).now = (x.state i).now := by
  induction hij with
  | refl => rfl
  | @step j hij ih =>
    have hcore := h.core j hij (Nat.le_succ j)
    rw [htime.stands j (State.ready_of_running hcore)]
    refine ih ⟨fun n hi hn => h.core n hi (Nat.le_succ_of_le hn), fun d => ?_⟩
    have hheard := h.heard d
    rw [heard_trans hij (Nat.le_succ j)] at hheard
    exact (List.append_eq_nil_iff.1 hheard).1

end Execution

/-! ### Given moves -/

namespace Execution

variable {w : World A} {t : TaskId} {buses : Nat} {p : Program A Outcome} {memory : A.Memory} {moves : List Move}

/-- Whether the clock keeps time for task `t` with the step after `n` steps. -/
def keepsTime (x : Execution w) (t : TaskId) (n : Nat) : Bool :=
  decide ((x.state n).now ≤ (x.state (n + 1)).now) &&
  (!((x.state n).advance w t).isSome || (x.state (n + 1)).now == (x.state n).now) &&
  ((x.state n).dues t).all fun due => decide (due ≤ (x.state n).now) || decide ((x.state (n + 1)).now ≤ due)

/-- With given moves the clock keeps time if it does so until all of them have been made. -/
theorem directed_keepsTime
    (hclock : ((Execution.directed w buses p memory moves).state (moves.length + 1)).tick = none)
    (hkeeps : ∀ n, n ≤ moves.length → (Execution.directed w buses p memory moves).keepsTime t n = true) :
    (Execution.directed w buses p memory moves).KeepsTime t := by
  have hnow : ∀ n, moves.length < n → ((Execution.directed w buses p memory moves).state (n + 1)).now
      = ((Execution.directed w buses p memory moves).state n).now := fun n hn => by
    rw [directed_rest hclock hn, directed_rest hclock (Nat.le_succ_of_le hn)]
  refine ⟨fun n => ?_, fun n hready => ?_, fun n due hdue hlater => ?_⟩
  · rcases Nat.lt_or_ge moves.length n with hn | hn
    · exact Nat.le_of_eq (hnow n hn).symm
    · have hstep := hkeeps n hn
      simp only [keepsTime, Bool.and_eq_true, decide_eq_true_eq] at hstep
      exact hstep.1.1
  · rcases Nat.lt_or_ge moves.length n with hn | hn
    · exact hnow n hn
    · have hstep := hkeeps n hn
      simp only [keepsTime, hready, Bool.and_eq_true] at hstep
      exact eq_of_beq hstep.1.2
  · rcases Nat.lt_or_ge moves.length n with hn | hn
    · rw [hnow n hn]
      exact Nat.le_of_lt hlater
    · have hstep := hkeeps n hn
      simp only [keepsTime, Bool.and_eq_true, List.all_eq_true] at hstep
      have hdues := hstep.2 due hdue
      simp only [Bool.or_eq_true, decide_eq_true_eq] at hdues
      exact hdues.resolve_left (Nat.not_le_of_lt hlater)

/-- With given moves nobody waits for a moment for ever who takes the last step and waits for none then. -/
theorem directed_comes {wait : Wait A} {due n : Nat} {calls : Calls A} {passes : List Pass}
    (hclock : ((Execution.directed w buses p memory moves).state (moves.length + 1)).tick = none)
    (hturn : (Execution.directed w buses p memory moves).turn moves.length = some t)
    (hawake : ((Execution.directed w buses p memory moves).state (moves.length + 1)).dues t = [])
    (hdue : wait.due? = some due)
    (hk : ((Execution.directed w buses p memory moves).state n).core t = some ⟨.waiting wait, calls, passes⟩) :
    ∃ m, n ≤ m ∧ (due ≤ ((Execution.directed w buses p memory moves).state m).now ∨
      (Execution.directed w buses p memory moves).turn m = some t) := by
  rcases Nat.lt_or_ge moves.length n with hn | hn
  · have hmem : due ∈ ((Execution.directed w buses p memory moves).state n).dues t :=
      (State.mem_dues_iff hk).2 (.inl hdue)
    rw [directed_rest hclock hn, hawake] at hmem
    cases hmem
  · exact ⟨_, hn, .inr hturn⟩

theorem directed_wakes
    (hclock : ((Execution.directed w buses p memory moves).state (moves.length + 1)).tick = none)
    (hturn : (Execution.directed w buses p memory moves).turn moves.length = some t)
    (hawake : ((Execution.directed w buses p memory moves).state (moves.length + 1)).dues t = []) :
    (Execution.directed w buses p memory moves).Wakes t :=
  fun _ _ _ _ _ hk => directed_comes hclock hturn hawake rfl hk

theorem directed_lapses
    (hclock : ((Execution.directed w buses p memory moves).state (moves.length + 1)).tick = none)
    (hturn : (Execution.directed w buses p memory moves).turn moves.length = some t)
    (hawake : ((Execution.directed w buses p memory moves).state (moves.length + 1)).dues t = []) :
    (Execution.directed w buses p memory moves).Lapses t :=
  fun _ _ _ _ _ _ hk => directed_comes hclock hturn hawake rfl hk

end Execution

/-! ### Who can only give up a call -/

section Expired

theorem expired_append_eq_none {now : Nat} {inner outer : List (Frame A)}
    (h : expired now (inner ++ outer) = none) : expired now inner = none := by
  induction inner with
  | nil => rfl
  | cons f inner ih =>
    rw [List.cons_append, expired] at h
    rw [expired]
    split at h
    · exact ih h
    · split at h
      · cases h
      · next hlater =>
        rw [if_neg hlater]
        exact ih h

/-- The call that is given up is the innermost one whose limit has been reached. -/
theorem expired_first {now : Nat} {frames rest : List (Frame A)} {f : Frame A} {limit : Duration}
    (h : expired now frames = some (f, limit, rest)) :
    ∃ inner, frames = inner ++ f :: rest ∧ expired now inner = none := by
  induction frames with
  | nil => cases h
  | cons g outer ih =>
    rw [expired] at h
    split at h
    · next hguard =>
      obtain ⟨inner, rfl, hinner⟩ := ih h
      exact ⟨g :: inner, rfl, by rw [expired, hguard]; exact hinner⟩
    · next guard hguard =>
      split at h
      · cases h
        exact ⟨[], rfl, rfl⟩
      · next hlater =>
        obtain ⟨inner, rfl, hinner⟩ := ih h
        refine ⟨g :: inner, rfl, ?_⟩
        rw [expired, hguard]
        exact (if_neg hlater).trans hinner

end Expired

/-- Task `t` waits in vain, and no limit of a call inside of more than `d` calls has been reached. -/
def State.IsHeldUp (s : State A) (t : TaskId) (d : Nat) : Prop :=
  ∃ k wait stamp, s.tasks[t]? = some k ∧ k.status = .waiting wait stamp ∧ s.proceed t wait = none ∧
    expired s.now (k.frames.take (k.frames.length - d)) = none

namespace State

variable {w : World A} {s s' : State A} {t : TaskId} {d : Nat} {c : Core A} {calls : Calls A}
  {passes : List Pass} {wait : Wait A}

theorem IsHeldUp.not_running {p : Program A Outcome} (h : s.IsHeldUp t d) :
    s.core t ≠ some ⟨.running p, calls, passes⟩ := by
  intro hcore
  obtain ⟨k, wait, stamp, hk, hstatus, -, -⟩ := h
  have hdoing := congrArg Core.doing (Option.some.inj ((core_of_task hk).symm.trans hcore))
  rw [Task.core, hstatus] at hdoing
  cases hdoing

/-- Whoever sleeps in vain has still time to do so. -/
theorem IsHeldUp.lt_due {due : Nat} {next : Program A Outcome} (h : s.IsHeldUp t d)
    (hcore : s.core t = some ⟨.waiting (.sleeping due next), calls, passes⟩) : s.now < due := by
  obtain ⟨k, wait, stamp, hk, hstatus, hproceed, -⟩ := h
  have hdoing := congrArg Core.doing (Option.some.inj ((core_of_task hk).symm.trans hcore))
  rw [Task.core, hstatus] at hdoing
  have hbare : wait.bare = .sleeping due next := Doing.waiting.inj hdoing
  cases wait <;> cases hbare
  rw [proceed] at hproceed
  split at hproceed
  · cases hproceed
  · next hlater => exact Nat.lt_of_not_le hlater

/-- Whoever is held up inside of some calls is so inside of more of them. -/
theorem IsHeldUp.succ (h : s.IsHeldUp t d) : s.IsHeldUp t (d + 1) := by
  obtain ⟨k, wait, stamp, hk, hstatus, hproceed, hexpired⟩ := h
  refine ⟨k, wait, stamp, hk, hstatus, hproceed, ?_⟩
  have hsplit : k.frames.take (k.frames.length - d) = k.frames.take (k.frames.length - (d + 1)) ++
      (k.frames.take (k.frames.length - d)).drop (k.frames.length - (d + 1)) := by
    have htake : k.frames.take (k.frames.length - (d + 1))
        = (k.frames.take (k.frames.length - d)).take (k.frames.length - (d + 1)) := by
      rw [List.take_take, Nat.min_eq_left (by omega)]
    rw [htake, List.take_append_drop]
  rw [hsplit] at hexpired
  exact expired_append_eq_none hexpired

/-- Whoever is held up inside of some calls has still time for the innermost of them. -/
theorem IsHeldUp.lt_deadline {limit : Duration} {due : Nat} {ls : Limits} (h : s.IsHeldUp t d)
    (hls : some (limit, due) :: ls <:+ s.limits t) (hlength : ls.length = d) : s.now < due := by
  obtain ⟨k, wait, stamp, hk, -, -, hexpired⟩ := h
  obtain ⟨before, hbefore⟩ := hls
  rw [limits_of_task hk] at hbefore
  obtain ⟨inner, rest, hframes, -, hrest⟩ := List.map_eq_append_iff.1 hbefore.symm
  obtain ⟨f, outer, rfl, hf, houter⟩ := List.map_eq_cons_iff.1 hrest
  have hdepth : outer.length = d := by rw [← hlength, ← houter, List.length_map]
  have hinside : k.frames.take (k.frames.length - d) = inner ++ [f] := by
    have hlen : (inner ++ f :: outer).length - d = (inner ++ [f]).length := by
      rw [List.length_append, List.length_append, List.length_cons, hdepth]
      exact Nat.sub_eq_of_eq_add (by simp; omega)
    rw [hframes, hlen, show inner ++ f :: outer = (inner ++ [f]) ++ outer by simp, List.take_left]
  refine Nat.lt_of_not_le fun hdue => ?_
  have hmem : some (limit, due) ∈ (inner ++ [f]).map Frame.limit := List.mem_map.2 ⟨f, by simp, hf⟩
  have hsome := expired_of_due hmem hdue
  rw [hinside] at hexpired
  rw [hexpired] at hsome
  cases hsome

/-- **Whoever gives up a call while it waits was held up inside of it.** -/
theorem isHeldUp_of_left {inner : Calls A} {f : Nat × (Outcome → Program A Outcome)} {p : Program A Outcome}
    {passes' : List Pass} (hadvance : s.advance w t = some s')
    (hc : s.core t = some ⟨.waiting wait, inner ++ f :: calls, passes⟩)
    (hc' : s'.core t = some ⟨.running p, calls, passes'⟩) : s.IsHeldUp t (calls.length + 1) := by
  obtain ⟨k, wait', stamp, hk, hstatus, -⟩ := waits_of_core hc
  rw [advance, hk] at hadvance
  dsimp only at hadvance
  rw [hstatus] at hadvance
  dsimp only at hadvance
  split at hadvance
  · obtain rfl := Option.some.inj hadvance
    cases (finish_core .aborted hk).symm.trans hc'
  · cases hproceed : s.proceed t wait' with
    | some s₁ =>
      -- Had the wait been over, no call would have been left.
      rw [hproceed] at hadvance
      obtain rfl := Option.some.inj hadvance
      have hsame : inner ++ f :: calls = calls := by
        have hcalls : calls = _ := calls_of_core hc'
        rw [frames_proceed hproceed] at hcalls
        exact (calls_of_core hc).trans hcalls.symm
      exact absurd (Nat.le_of_eq (congrArg List.length hsame)) not_shorter
    | none =>
      rw [hproceed] at hadvance
      dsimp only at hadvance
      split at hadvance
      · next g limit rest hfirst =>
        obtain rfl := Option.some.inj hadvance
        obtain ⟨before, hframes, hbefore⟩ := expired_first hfirst
        have hleft := Option.some.inj ((leave_core _ hk).symm.trans hc')
        have hrest : rest.length = calls.length := by
          rw [← List.length_map (fun f : Frame A => (f.depth, f.caller))]
          exact congrArg (fun c : Core A => c.calls.length) hleft
        refine ⟨k, wait', stamp, hk, hstatus, hproceed, ?_⟩
        rw [hframes, List.length_append, List.length_cons, hrest, Nat.add_sub_cancel, List.take_left]
        exact hbefore
      · cases hadvance

/-! ### Who is cut off from a call -/

/-- A task that is inside of a call ends only if it was told to. -/
theorem aborted_of_ended (hadvance : s.advance w t = some s') (hc : s.core t = some c) (hcalls : c.calls ≠ [])
    {c' : Core A} (hc' : s'.core t = some c') (hended : c'.doing = .ended) :
    ∃ k, s.tasks[t]? = some k ∧ k.aborted = true := by
  have hnone : c'.calls = [] := by
    obtain ⟨c₁, c₂, -, hc₂, hstep⟩ := (advance_stepped hadvance).own
    obtain rfl := Option.some.inj (hc'.symm.trans hc₂)
    generalize s.bus = g, s'.bus = g' at hstep
    cases hstep with
    | goes _ _ _ hlive => exact absurd hended hlive
    | finishes => rfl
    | _ => cases hended
  have hsame : s'.frames t ≠ s.frames t := by
    intro heq
    rw [calls_of_core hc', heq, ← calls_of_core hc] at hnone
    exact hcalls hnone
  obtain ⟨k, hk, rfl⟩ := Option.map_eq_some_iff.1 hc
  have hleaves : ∀ {f : Frame A} {rest : List (Frame A)} {o : Outcome}, s' ≠ s.leave t f rest o := by
    rintro f rest o rfl
    obtain rfl := Option.some.inj ((leave_core o hk).symm.trans hc')
    cases hended
  have hframes : k.frames ≠ [] := fun hnil => hcalls (by rw [Task.core, hnil]; rfl)
  obtain ⟨f, rest, hframes⟩ := List.exists_cons_of_ne_nil hframes
  refine ⟨k, hk, ?_⟩
  rw [advance, hk] at hadvance
  dsimp only at hadvance
  cases hstatus : k.status with
  | ended e =>
    rw [hstatus] at hadvance
    cases hadvance
  | running p =>
    rw [hstatus] at hadvance
    dsimp only at hadvance
    rw [hframes] at hadvance
    have heq := (Option.some.inj hadvance).symm
    cases p with
    | done o => exact absurd heq hleaves
    | perform op next =>
      by_cases hop : op.Stays
      · exact absurd (heq ▸ congrFun (frames_operate hop) t) hsame
      · cases op with
        | call callee limit =>
          rw [show s' = s.enter w t callee limit next from heq, enter, core_onTask_self hk] at hc'
          obtain rfl := Option.some.inj hc'
          cases hended
        | panic payload =>
          have hpanics : s' ≠ s.leave t f rest (.error (.panicked payload.message)) := hleaves
          refine absurd (heq.trans ?_) hpanics
          show s.panic t payload = _
          rw [panic, hk, Option.map_some, hframes]
        | _ => exact absurd trivial hop
  | waiting wait stamp =>
    rw [hstatus] at hadvance
    dsimp only at hadvance
    split at hadvance
    · next haborted => exact haborted
    · split at hadvance
      · next hproceed =>
        obtain rfl := Option.some.inj hadvance
        exact absurd (congrFun (frames_proceed hproceed) t) hsame
      · split at hadvance
        · exact absurd (Option.some.inj hadvance).symm hleaves
        · cases hadvance

end State

namespace Execution

variable {w : World A} {x : Execution w} {t : TaskId} {n : Nat} {k k' : Core A} {calls : Calls A}
  {passes : List Pass} {next : Outcome → Program A Outcome}

/-- A task that ends with the next step was told to, or takes that step. -/
theorem turn_of_ended (hk : (x.state n).core t = some k) (hlive : k.doing ≠ .ended)
    (hk' : (x.state (n + 1)).core t = some k') (hended : k'.doing = .ended) :
    (∃ task, (x.state n).tasks[t]? = some task ∧ task.aborted = true) ∨ x.turn n = some t := by
  have hsame : (x.state (n + 1)).core t ≠ (x.state n).core t := by
    intro heq
    rw [hk', hk] at heq
    exact hlive (Option.some.inj heq ▸ hended)
  have hhappens := x.happens n
  generalize x.turn n = o at hhappens ⊢
  generalize x.state n = s at hhappens hk hsame ⊢
  generalize x.state (n + 1) = s' at hhappens hk' hsame
  have hothers : ∀ u, u ≠ t → ¬ s.Stepped w u s' := by
    intro u hu h
    rcases h.others t (Ne.symm hu) with heq | ⟨hnone, -⟩
    · exact hsame heq
    · cases hnone.symm.trans hk
  cases hhappens with
  | @turn u _ _ hadvance =>
    by_cases hu : u = t
    · exact .inr (congrArg some hu)
    · exact absurd (State.advance_stepped hadvance) (hothers u hu)
  | @stop u _ ku hku haborted hlive' =>
    by_cases hu : u = t
    · subst hu
      exact .inl ⟨ku, hku, haborted⟩
    · exact absurd (State.finish_stepped .aborted hku hlive') (hothers u hu)
  | @commission u _ _ p calls' hu hu' _ hrest _ =>
    by_cases heq : t = u
    · subst heq
      obtain rfl := Option.some.inj (hk.symm.trans hu)
      exact absurd rfl hlive
    · exact absurd (hrest t heq) hsame
  | elsewhere hcore _ => exact absurd (congrFun hcore t) hsame

/-- A task that ends with the next step inside of a call was told to. -/
theorem aborted_of_ended (hk : (x.state n).core t = some k) (hlive : k.doing ≠ .ended) (hcalls : k.calls ≠ [])
    (hk' : (x.state (n + 1)).core t = some k') (hended : k'.doing = .ended) :
    ∃ task, (x.state n).tasks[t]? = some task ∧ task.aborted = true := by
  rcases turn_of_ended hk hlive hk' hended with haborted | hturn
  · exact haborted
  · exact State.aborted_of_ended (advance_of_turn hturn) hk hcalls hk' hended

/-- **A task inside of a call is cut off from the caller** only because it was told to end, or because it waits
and the limit of a call around the caller has been reached. -/
theorem cut_cases (hk : (x.state n).core t = some k) (hlive : k.doing ≠ .ended) (hinside : Inside next calls passes k)
    (hk' : (x.state (n + 1)).core t = some k') (hcut : k'.doing = .ended ∨ k'.calls.length < calls.length) :
    (∃ task, (x.state n).tasks[t]? = some task ∧ task.aborted = true) ∨
      ∃ wait limit due ls, k.doing = .waiting wait ∧ ls <:+ (x.state n).limits t ∧ ls.length = calls.length ∧
        some (limit, due) ∈ ls ∧ due ≤ (x.state n).now := by
  obtain ⟨⟨inner, hcalls, -⟩, -⟩ := hinside
  by_cases hended : k'.doing = .ended
  · have hnonempty : k.calls ≠ [] := by
      rw [hcalls]
      exact List.append_ne_nil_of_right_ne_nil _ (List.cons_ne_nil _ _)
    exact .inl (aborted_of_ended hk hlive hnonempty hk' hended)
  · have hfewer := hcut.resolve_left hended
    have hlength : calls.length < k.calls.length := by
      rw [hcalls, List.length_append, List.length_cons]
      omega
    have hturn : x.turn n = some t := by
      by_contra hne
      obtain rfl := same_of_turn_ne hne hk hlive hk' hended
      omega
    obtain ⟨before, depth, caller, o, hsplit, -⟩ :=
      (step_of_turn hturn hk hk').left hended (Nat.lt_trans hfewer hlength)
    obtain ⟨o, lsBefore, l, hls, -, hleaving, -⟩ := (timed_of_turn hturn hk hk').leaving hended hsplit
    have hdeeper : before ≠ [] := by
      rintro rfl
      have hone := congrArg List.length hsplit
      rw [List.nil_append, List.length_cons] at hone
      omega
    cases hleaving with
    | returns hnil => exact absurd hnil hdeeper
    | panics hnil => exact absurd hnil hdeeper
    | @expires wait limit due hdoing hl hdue =>
      subst hl
      refine .inr ⟨wait, limit, due, ((x.state n).limits t).drop (((x.state n).limits t).length - calls.length),
        hdoing, List.drop_suffix _ _, ?_, ?_, hdue⟩
      · rw [List.length_drop, State.length_limits hk]
        omega
      · have hsuffix : some (limit, due) :: (x.state (n + 1)).limits t <:+ (x.state n).limits t :=
          ⟨lsBefore, hls.symm⟩
        refine (List.suffix_of_suffix_length_le hsuffix (List.drop_suffix _ _) ?_).subset List.mem_cons_self
        rw [List.length_drop, List.length_cons, State.length_limits hk, State.length_limits hk']
        omega

end Execution

end Orchestra.Machine
