import Orchestra.Proofs.Following
import Orchestra.Proofs.Staging

/-!
# The limits of calls

A call may have a limit, from which its deadline follows when it is made.  Nobody changes either as long
as the call is in progress, and the caller is told which limit has been outlasted.

* `State.frames`, `State.limits` — the calls around a task's program, and their limits and deadlines;
* `State.frames_of_advance` — a step of one task leaves the calls of the others alone;
* `Timed` — what a step does to the calls and limits of the task that takes it, and why it leaves a call;
* `State.advance_timed` — every step of the machine does one of these things;
* `Execution.KeepsLimits` — what is no step of any task changes no limits either;
* `State.run_keepsLimits`, `Execution.directed_keepsLimits` — so it is with the scheduler, and with given moves;
* `Execution.limits_followed` — as long as a task does not leave a call, its limit stays.
-/

namespace Orchestra

variable {A : Application}

/-- An operation that neither makes a call nor leaves one. -/
def Op.Stays : Op A → Prop
  | .call .. | .panic _ => False
  | _ => True

namespace Machine

/-- The limits of calls, innermost first, and the moments at which they are reached. -/
abbrev Limits := List (Option (Duration × Nat))

/-- The limit of a call in progress, and the moment at which it is reached. -/
def Frame.limit (f : Frame A) : Option (Duration × Nat) := f.guard.map fun g => (g.limit, g.due)

namespace State

/-- The calls around a task's program, innermost first. -/
def frames (s : State A) (t : TaskId) : List (Frame A) := ((s.tasks[t]?).map Task.frames).getD []

/-- The limits of the calls around a task's program. -/
def limits (s : State A) (t : TaskId) : Limits := (s.frames t).map Frame.limit

variable {s s' : State A} {t u : TaskId} {k : Task A} {w : World A}

/-! ### Calls that nobody touches -/

theorem frames_of_task (h : s.tasks[t]? = some k) : s.frames t = k.frames := by
  rw [frames, h]
  rfl

theorem frames_eq (h : s'.tasks = s.tasks) : s'.frames = s.frames := by
  funext u
  rw [frames, frames, h]

theorem frames_onTask_of_ne (h : u ≠ t) (f : Task A → Task A) :
    (s.onTask t f).frames u = s.frames u := by
  rw [frames, frames, onTask]
  simp [List.getElem?_modify_ne _ _ (Ne.symm h)]

/-- A change to a task that spares its calls spares all calls. -/
theorem frames_onTask_of_frames {f : Task A → Task A} (hf : ∀ k, (f k).frames = k.frames) :
    (s.onTask t f).frames = s.frames := by
  funext u
  by_cases h : u = t
  · subst h
    rw [frames, frames, onTask]
    cases hk : s.tasks[u]? <;> simp [hk, hf]
  · exact frames_onTask_of_ne h f

theorem frames_onTask_self (h : s.tasks[t]? = some k) (f : Task A → Task A) :
    (s.onTask t f).frames t = (f k).frames :=
  frames_of_task (tasks_onTask_self h f)

theorem frames_setStatus (s : State A) (t : TaskId) (status : Status A) :
    (s.setStatus t status).frames = s.frames :=
  frames_onTask_of_frames fun _ => rfl

theorem frames_onLock (s : State A) (b : BusId) (f : Lock → Lock × List TaskId) :
    (s.onLock b f).frames = s.frames :=
  frames_eq (onLock_tasks s b f)

/-- A task that has just been started is inside no call. -/
theorem frames_startTask (s : State A) (role : Role) (p : Program A Outcome) :
    (s.startTask role p).1.frames = s.frames := by
  funext u
  simp only [frames, startTask]
  rcases Nat.lt_trichotomy u s.tasks.length with h | h | h
  · rw [List.getElem?_append_left h]
  · subst h
    simp
  · rw [List.getElem?_eq_none (Nat.le_of_lt h), List.getElem?_eq_none (by simp; omega)]

theorem frames_abort (s : State A) (t : TaskId) : (s.abort t).frames = s.frames := by
  unfold abort
  split
  · rfl
  · rfl
  · exact (frames_eq (wake_tasks _ t)).trans (frames_onTask_of_frames fun _ => rfl)

theorem frames_endPasses (s : State A) (t : TaskId) (depth : Nat) :
    (s.endPasses t depth).frames = s.frames := by
  cases hk : s.tasks[t]? with
  | none =>
    rw [endPasses, hk]
  | some k =>
    exact (frames_eq (endPasses_tasks hk depth)).trans (frames_onTask_of_frames fun _ => rfl)

theorem frames_dropClaim (s : State A) (t : TaskId) : (s.dropClaim t).frames = s.frames :=
  frames_eq (dropClaim_tasks s t)

/-! ### Calls that are left -/

theorem frames_leave_of_ne {f : Frame A} {rest : List (Frame A)} (o : Outcome) (h : u ≠ t) :
    (s.leave t f rest o).frames u = s.frames u := by
  rw [leave, frames_onTask_of_ne h, frames_endPasses, frames_dropClaim]

theorem frames_leave_self {f : Frame A} {rest : List (Frame A)} (o : Outcome)
    (h : s.tasks[t]? = some k) : (s.leave t f rest o).frames t = rest := by
  have hdrop : (s.dropClaim t).tasks[t]? = some k := by rw [dropClaim_tasks, h]
  have hpasses : ((s.dropClaim t).endPasses t f.depth).tasks[t]?
      = some { k with passes := k.passes.drop (k.passes.length - f.depth) } := by
    rw [endPasses_tasks hdrop, tasks_onTask_self hdrop]
  exact frames_onTask_self hpasses _

theorem frames_finish_of_ne (e : Ending) (h : u ≠ t) : (s.finish t e).frames u = s.frames u := by
  cases hk : s.tasks[t]? with
  | none => rw [finish, hk]
  | some k =>
    rw [frames_eq (finish_tasks e hk), frames_onTask_of_ne h, frames_endPasses, frames_dropClaim]

/-! ### What one step does -/

/-- The end of a wait leaves all calls alone. -/
theorem frames_proceed {wait : Wait A} (h : s.proceed t wait = some s') : s'.frames = s.frames := by
  cases wait with
  | beginning b next =>
    rw [proceed] at h
    split at h
    · cases h
    · obtain rfl := Option.some.inj h
      exact (frames_setStatus _ t _).trans (frames_onTask_of_frames fun _ => rfl)
  | reading b next =>
    rw [proceed] at h
    split at h
    · cases h
    · obtain rfl := Option.some.inj h
      exact (frames_onLock _ b _).trans (frames_setStatus s t _)
  | editing b e next =>
    rw [proceed] at h
    split at h
    · cases h
    · obtain rfl := Option.some.inj h
      exact frames_setStatus s t _
  | replacing b e copy next =>
    obtain rfl := Option.some.inj h
    exact (frames_onLock _ b _).trans (frames_setStatus _ t _)
  | _ =>
    obtain ⟨p, -, rfl⟩ := resumes_of_proceed rfl h
    exact frames_setStatus s t _

/-- An operation that neither makes a call nor leaves one leaves all calls alone. -/
theorem frames_operate {op : Op A} {next : op.Answer → Program A Outcome} (h : op.Stays) :
    (s.operate w t op next).frames = s.frames := by
  cases op with
  | call callee limit => exact h.elim
  | panic payload => exact h.elim
  | beginDelivery b => exact (frames_setStatus _ t _).trans (frames_onLock s b _)
  | listeners b => exact (frames_setStatus _ t _).trans (frames_onLock s b _)
  | edit b e => exact (frames_setStatus _ t _).trans (frames_onLock s b _)
  | endDelivery =>
    refine (frames_setStatus _ t _).trans ?_
    unfold endPass
    split
    · rfl
    · dsimp only
      split
      · exact frames_endPasses s t _
      · rfl
  | cancel token =>
    exact (frames_eq (cancel_tasks _ token)).trans (frames_setStatus s t _)
  | spawn name job => exact (frames_setStatus _ t _).trans (frames_startTask s .task _)
  | hire crew name job => exact (frames_setStatus _ t _).trans (frames_startTask _ _ _)
  | join name =>
    rw [operate]
    split
    · exact frames_setStatus s t _
    · exact frames_setStatus _ t _
  | abort name =>
    rw [operate]
    split
    · exact frames_setStatus s t _
    · exact (frames_abort _ _).trans (frames_setStatus s t _)
  | awaitTermination request =>
    rw [operate]
    obtain ⟨-, heq⟩ | ⟨handled, -, ⟨g, error, -, heq⟩ | ⟨-, heq⟩⟩ := awaitTermination_cases s t request next
    all_goals
      rw [heq]
      exact frames_setStatus _ t _
  | _ => exact frames_setStatus _ t _

/-- **A step of one task leaves the calls of the others alone.** -/
theorem frames_of_advance (h : s.advance w t = some s') (hu : u ≠ t) : s'.frames u = s.frames u := by
  unfold advance at h
  split at h
  · cases h
  · split at h
    · cases h
    · next k _ _ p hstatus =>
      obtain rfl := Option.some.inj h
      cases p with
      | done o =>
        cases hframes : k.frames with
        | nil => exact frames_finish_of_ne .finished hu
        | cons f rest => exact frames_leave_of_ne o hu
      | perform op next =>
        by_cases hop : op.Stays
        · exact congrFun (frames_operate hop) u
        · cases op with
          | call callee limit => exact frames_onTask_of_ne hu _
          | panic payload =>
            show (s.panic t payload).frames u = s.frames u
            unfold panic
            split
            · exact frames_leave_of_ne _ hu
            · exact frames_finish_of_ne _ hu
          | _ => exact absurd trivial hop
    · split at h
      · obtain rfl := Option.some.inj h
        exact frames_finish_of_ne .aborted hu
      · split at h
        · next hproceed =>
          obtain rfl := Option.some.inj h
          exact congrFun (frames_proceed hproceed) u
        · split at h
          · obtain rfl := Option.some.inj h
            exact frames_leave_of_ne _ hu
          · cases h

end State

/-- One step of a task at a given moment, with the limits of the calls around it. -/
inductive Timed (w : World A) (now : Nat) : Core A → Limits → Core A → Limits → Prop where
  /-- It makes no call and leaves none. -/
  | stays {k k' : Core A} {ls : Limits} : k'.calls = k.calls →
      (∀ p, k.doing = .running p → ∃ op next, p = .perform op next ∧ op.Stays) → Timed w now k ls k' ls
  | enters {callee : Callee} {limit : Option Duration} {next : Outcome → Program A Outcome}
      {calls : Calls A} {passes : List Pass} {ls : Limits} :
      Timed w now ⟨.running (.perform (.call callee limit) next), calls, passes⟩ ls
        ⟨.running (w.body callee), (passes.length, next) :: calls, passes⟩
        (limit.map (fun d => (d, now + d.ceilMillis)) :: ls)
  /-- A body has come to its end. -/
  | returns {o : Outcome} {depth : Nat} {caller : Outcome → Program A Outcome} {calls : Calls A}
      {passes passes' : List Pass} {l : Option (Duration × Nat)} {ls : Limits} :
      Timed w now ⟨.running (.done o), (depth, caller) :: calls, passes⟩ (l :: ls)
        ⟨.running (caller o), calls, passes'⟩ ls
  | panics {payload : Payload} {next : Empty → Program A Outcome} {depth : Nat}
      {caller : Outcome → Program A Outcome} {calls : Calls A} {passes passes' : List Pass}
      {l : Option (Duration × Nat)} {ls : Limits} :
      Timed w now ⟨.running (.perform (.panic payload) next), (depth, caller) :: calls, passes⟩ (l :: ls)
        ⟨.running (caller (.error (.panicked payload.message))), calls, passes'⟩ ls
  /-- It waits, and the limit of a call has been reached. -/
  | expires {wait : Wait A} {inner calls : Calls A} {depth : Nat}
      {caller : Outcome → Program A Outcome} {passes passes' : List Pass} {d : Duration} {due : Nat}
      {before ls : Limits} : before.length = inner.length → due ≤ now →
      Timed w now ⟨.waiting wait, inner ++ (depth, caller) :: calls, passes⟩
        (before ++ some (d, due) :: ls) ⟨.running (caller (.error (.timedOut d))), calls, passes'⟩ ls
  | finishes {k k' : Core A} {ls ls' : Limits} : k'.doing = .ended → Timed w now k ls k' ls'

section Timed

variable {w : World A} {now : Nat} {k k' : Core A} {ls ls' : Limits}

/-- A step leaves the limits of the calls that it does not leave as they are. -/
theorem Timed.suffix (h : Timed w now k ls k' ls') (hended : k'.doing ≠ .ended) :
    ls' <:+ ls ∨ ls <:+ ls' := by
  cases h with
  | stays => exact .inl (List.suffix_refl ls)
  | enters => exact .inr (List.suffix_cons _ ls)
  | returns => exact .inl (List.suffix_cons _ ls')
  | panics => exact .inl (List.suffix_cons _ ls')
  | @expires _ _ _ _ _ _ _ d due before _ =>
    exact .inl ((List.suffix_cons _ ls').trans (List.suffix_append before _))
  | finishes h => exact absurd h hended

/-- Whoever makes a call is given its limit. -/
theorem Timed.of_call {callee : Callee} {limit : Option Duration} {next : Outcome → Program A Outcome}
    {calls : Calls A} {passes : List Pass}
    (h : Timed w now ⟨.running (.perform (.call callee limit) next), calls, passes⟩ ls k' ls')
    (hended : k'.doing ≠ .ended) : ls' = limit.map (fun d => (d, now + d.ceilMillis)) :: ls := by
  cases h with
  | stays _ hstays =>
    obtain ⟨op, next', heq, hop⟩ := hstays _ rfl
    obtain ⟨rfl, -⟩ := Program.perform.inj heq
    exact hop.elim
  | enters => rfl
  | finishes h => exact absurd h hended

/-- Whoever has come to the end of a body leaves the call. -/
theorem Timed.of_done {o : Outcome} {f : Nat × (Outcome → Program A Outcome)} {calls : Calls A}
    {passes : List Pass} (h : Timed w now ⟨.running (.done o), f :: calls, passes⟩ ls k' ls')
    (hended : k'.doing ≠ .ended) : k'.calls = calls := by
  cases h with
  | stays _ hstays =>
    obtain ⟨op, next, heq, -⟩ := hstays _ rfl
    cases heq
  | returns => rfl
  | finishes h => exact absurd h hended

/-- Whoever panics inside of a call leaves it. -/
theorem Timed.of_panic {payload : Payload} {next : Empty → Program A Outcome}
    {f : Nat × (Outcome → Program A Outcome)} {calls : Calls A} {passes : List Pass}
    (h : Timed w now ⟨.running (.perform (.panic payload) next), f :: calls, passes⟩ ls k' ls')
    (hended : k'.doing ≠ .ended) : k'.calls = calls := by
  cases h with
  | stays _ hstays =>
    obtain ⟨op, next', heq, hop⟩ := hstays _ rfl
    obtain ⟨rfl, -⟩ := Program.perform.inj heq
    exact hop.elim
  | panics => rfl
  | finishes h => exact absurd h hended

/-- Why a task leaves a call that is inside `inner` others, and what the caller is told: the body has come to its
end or panics, or the task waits past the limit `l`. -/
inductive Leaving (now : Nat) (k : Core A) (inner : Calls A) (l : Option (Duration × Nat)) :
    Outcome → Prop where
  | returns {o : Outcome} : inner = [] → k.doing = .running (.done o) → Leaving now k inner l o
  | panics {payload : Payload} {next : Empty → Program A Outcome} : inner = [] →
      k.doing = .running (.perform (.panic payload) next) → Leaving now k inner l (.error (.panicked payload.message))
  | expires {wait : Wait A} {d : Duration} {due : Nat} : k.doing = .waiting wait → l = some (d, due) →
      due ≤ now → Leaving now k inner l (.error (.timedOut d))

/-- A step with which a call is left. -/
theorem Timed.leaving {inner : Calls A} {depth : Nat} {caller : Outcome → Program A Outcome}
    (h : Timed w now k ls k' ls') (hended : k'.doing ≠ .ended)
    (hcalls : k.calls = inner ++ (depth, caller) :: k'.calls) : ∃ o before l,
      ls = before ++ l :: ls' ∧ before.length = inner.length ∧ Leaving now k inner l o ∧
        k'.doing = .running (caller o) := by
  have hsplit : ∀ (before rest : Calls A) (f : Nat × (Outcome → Program A Outcome)),
      before ++ f :: rest = inner ++ (depth, caller) :: rest → before = inner ∧ f = (depth, caller) := by
    intro before rest f heq
    obtain ⟨hinner, hframe⟩ := List.append_inj' heq rfl
    exact ⟨hinner, (List.cons.inj hframe).1⟩
  cases h with
  | stays hsame =>
    rw [hsame] at hcalls
    exact absurd (congrArg List.length hcalls) (by simp; omega)
  | enters => exact absurd (congrArg List.length hcalls) (by simp; omega)
  | finishes h => exact absurd h hended
  | returns =>
    obtain ⟨rfl, hf⟩ := hsplit [] _ _ hcalls
    cases hf
    exact ⟨_, [], _, rfl, rfl, .returns rfl rfl, rfl⟩
  | panics =>
    obtain ⟨rfl, hf⟩ := hsplit [] _ _ hcalls
    cases hf
    exact ⟨_, [], _, rfl, rfl, .panics rfl rfl, rfl⟩
  | expires hlength hdue =>
    obtain ⟨rfl, hf⟩ := hsplit _ _ _ hcalls
    cases hf
    exact ⟨_, _, _, rfl, hlength, .expires rfl rfl hdue, rfl⟩

end Timed

namespace State

variable {s s' : State A} {t u : TaskId} {k : Task A} {c c' : Core A} {w : World A}

theorem calls_of_core (h : s.core t = some c) :
    c.calls = (s.frames t).map fun f => (f.depth, f.caller) := by
  obtain ⟨k, hk, rfl⟩ := Option.map_eq_some_iff.1 h
  rw [frames_of_task hk]
  rfl

theorem length_limits (h : s.core t = some c) : (s.limits t).length = c.calls.length := by
  rw [calls_of_core h, limits, List.length_map, List.length_map]

theorem expired_due {now : Nat} {frames rest : List (Frame A)} {f : Frame A} {limit : Duration}
    (h : expired now frames = some (f, limit, rest)) :
    ∃ inner due, frames = inner ++ f :: rest ∧ f.limit = some (limit, due) ∧ due ≤ now := by
  induction frames with
  | nil => cases h
  | cons g outer ih =>
    rw [expired] at h
    split at h
    · obtain ⟨inner, due, rfl, hf⟩ := ih h
      exact ⟨g :: inner, due, rfl, hf⟩
    · next guard hguard =>
      split at h
      · next hdue =>
        cases h
        exact ⟨[], guard.due, rfl, by rw [Frame.limit, hguard]; rfl, hdue⟩
      · obtain ⟨inner, due, rfl, hf⟩ := ih h
        exact ⟨g :: inner, due, rfl, hf⟩

/-- A step that leaves all calls alone. -/
theorem timed_of_frames (hc : s.core t = some c) (hc' : s'.core t = some c')
    (hframes : s'.frames = s.frames)
    (hstays : ∀ p, c.doing = .running p → ∃ op next, p = .perform op next ∧ op.Stays) :
    Timed w s.now c (s.limits t) c' (s'.limits t) := by
  have hlimits : s'.limits t = s.limits t := by rw [limits, hframes, limits]
  rw [hlimits]
  refine .stays ?_ hstays
  rw [calls_of_core hc, calls_of_core hc', hframes]

theorem limits_of_task (h : s.tasks[t]? = some k) : s.limits t = k.frames.map Frame.limit := by
  rw [limits, frames_of_task h]

/-- A task that ends. -/
theorem finish_timed {e : Ending} (hk : s.tasks[t]? = some k) (hc' : (s.finish t e).core t = some c') :
    Timed w s.now k.core (s.limits t) c' ((s.finish t e).limits t) := by
  obtain rfl := Option.some.inj ((finish_core e hk).symm.trans hc')
  exact .finishes rfl

/-- A task that leaves a call goes on with what is around it. -/
theorem leave_parts {f : Frame A} {rest : List (Frame A)} {o : Outcome} (hk : s.tasks[t]? = some k)
    (hc' : (s.leave t f rest o).core t = some c') : ∃ passes,
      c' = ⟨.running (f.caller o), rest.map fun f => (f.depth, f.caller), passes⟩ ∧
        (s.leave t f rest o).limits t = rest.map Frame.limit := by
  obtain rfl := Option.some.inj ((leave_core o hk).symm.trans hc')
  exact ⟨_, rfl, by rw [limits, frames_leave_self o hk]⟩

/-- A task that has come to the end of a body, or of its program. -/
theorem done_timed {o : Outcome} (hk : s.tasks[t]? = some k) (hstatus : k.status = .running (.done o))
    (hc' : (s.execute w t k.frames (.done o)).core t = some c') :
    Timed w s.now k.core (s.limits t) c' ((s.execute w t k.frames (.done o)).limits t) := by
  cases hframes : k.frames with
  | nil =>
    rw [hframes] at hc'
    exact finish_timed hk hc'
  | cons f rest =>
    rw [hframes] at hc'
    obtain ⟨passes, rfl, hlimits⟩ := leave_parts hk hc'
    have hleft : (s.execute w t (f :: rest) (.done o)).limits t = rest.map Frame.limit := hlimits
    rw [limits_of_task hk, hleft, Task.core, hstatus, hframes]
    exact .returns

/-- A task that performs an operation. -/
theorem operate_timed {op : Op A} {next : op.Answer → Program A Outcome} (hk : s.tasks[t]? = some k)
    (hstatus : k.status = .running (.perform op next)) (hc' : (s.operate w t op next).core t = some c') :
    Timed w s.now k.core (s.limits t) c' ((s.operate w t op next).limits t) := by
  have hdoing : k.core.doing = .running (.perform op next) := by
    rw [Task.core, hstatus]
    rfl
  by_cases hop : op.Stays
  · refine timed_of_frames (core_of_task hk) hc' (frames_operate hop) fun p hp => ?_
    exact ⟨op, next, (Doing.running.inj (hdoing.symm.trans hp)).symm, hop⟩
  · cases op with
    | call callee limit =>
      have hlimit : (⟨limit.map fun d => { limit := d, due := s.now + d.ceilMillis : Guard },
          k.passes.length, next⟩ : Frame A).limit = limit.map fun d => (d, s.now + d.ceilMillis) := by
        cases limit <;> rfl
      rw [operate] at hc' ⊢
      obtain rfl := Option.some.inj ((core_onTask_self hk _).symm.trans hc')
      rw [limits_of_task hk, limits, enter, frames_onTask_self hk, Task.core, hstatus, List.map_cons, hlimit]
      exact .enters
    | panic payload =>
      cases hframes : k.frames with
      | nil =>
        have hpanic : s.operate w t (.panic payload) next = s.finish t .panicked := by
          rw [operate, panic, hk, Option.map_some, hframes]
        rw [hpanic] at hc' ⊢
        exact finish_timed hk hc'
      | cons f rest =>
        have hpanic : s.operate w t (.panic payload) next = s.leave t f rest (.error (.panicked payload.message)) := by
          rw [operate, panic, hk, Option.map_some, hframes]
        rw [hpanic] at hc' ⊢
        obtain ⟨passes, rfl, hlimits⟩ := leave_parts hk hc'
        rw [limits_of_task hk, hlimits, Task.core, hstatus, hframes]
        exact .panics
    | _ => exact absurd trivial hop

/-- A task that waits. -/
theorem wait_timed {wait : Wait A} {stamp : Option Nat} (hk : s.tasks[t]? = some k)
    (hstatus : k.status = .waiting wait stamp) (h : s.advance w t = some s') (hc' : s'.core t = some c') :
    Timed w s.now k.core (s.limits t) c' (s'.limits t) := by
  have hdoing : k.core.doing = .waiting wait.bare := by
    rw [Task.core, hstatus]
    rfl
  rw [advance, hk] at h
  dsimp only at h
  rw [hstatus] at h
  dsimp only at h
  split at h
  · obtain rfl := Option.some.inj h
    exact finish_timed hk hc'
  · cases hproceed : s.proceed t wait with
    | some s₁ =>
      rw [hproceed] at h
      obtain rfl := Option.some.inj h
      refine timed_of_frames (core_of_task hk) hc' (frames_proceed hproceed) fun p hp => ?_
      cases hdoing.symm.trans hp
    | none =>
      rw [hproceed] at h
      dsimp only at h
      split at h
      · next f limit rest hexpired =>
        obtain ⟨inner, due, hframes, hlimit, hdue⟩ := expired_due hexpired
        obtain rfl := Option.some.inj h
        obtain ⟨passes, rfl, hlimits⟩ := leave_parts hk hc'
        rw [limits_of_task hk, hlimits, Task.core, hstatus, hframes, List.map_append, List.map_append,
          List.map_cons, List.map_cons, hlimit]
        exact .expires (by rw [List.length_map, List.length_map]) hdue
      · cases h

/-- **What a step does to the calls of the task that takes it.** -/
theorem advance_timed (h : s.advance w t = some s') (hc : s.core t = some c)
    (hc' : s'.core t = some c') : Timed w s.now c (s.limits t) c' (s'.limits t) := by
  obtain ⟨k, hk, rfl⟩ := Option.map_eq_some_iff.1 hc
  cases hstatus : k.status with
  | waiting wait stamp => exact wait_timed hk hstatus h hc'
  | running p =>
    rw [advance, hk] at h
    dsimp only at h
    rw [hstatus] at h
    obtain rfl := Option.some.inj h
    cases p with
    | done o => exact done_timed hk hstatus hc'
    | perform op next => exact operate_timed hk hstatus hc'
  | ended e =>
    rw [advance, hk] at h
    dsimp only at h
    rw [hstatus] at h
    cases h

/-! ### What is no step of any task -/

theorem stampFrames_limits (stamp : Nat) (frames : List (Frame A)) :
    (stampFrames stamp frames).1.map Frame.limit = frames.map Frame.limit := by
  induction frames generalizing stamp with
  | nil => rfl
  | cons f rest ih =>
    rw [stampFrames]
    split
    · next limit due hguard =>
      simp only [List.map_cons, ih (stamp + 1), Frame.limit, hguard, Option.map_some]
    · simp only [List.map_cons, ih stamp]

/-- A task that takes its place among those that wait keeps its limits. -/
theorem limits_park (s : State A) (t : TaskId) : (s.park t).limits = s.limits := by
  unfold park
  split
  · next k hk =>
    split
    · funext u
      by_cases hu : u = t
      · subst hu
        rw [limits, limits, frames_of_task hk, frames]
        dsimp only
        rw [List.getElem?_set_self (List.getElem?_eq_some_iff.1 hk).1, Option.map_some,
          Option.getD_some, stampFrames_limits]
      · rw [limits, limits, frames, frames]
        dsimp only
        rw [List.getElem?_set_ne (Ne.symm hu)]
    · rfl
  · rfl

theorem limits_of_frames (h : s'.frames = s.frames) : s'.limits = s.limits := by
  funext u
  rw [limits, limits, h]

theorem limits_deliverSignal (g : Signal) (s : State A) : (s.deliverSignal g).limits = s.limits := by
  refine limits_of_frames ?_
  unfold deliverSignal
  split
  · refine (frames_eq (wakeAll_tasks _ _)).trans ?_
    funext u
    rw [frames, frames, List.getElem?_map, Option.map_map]
    rfl
  · rfl

/-- The clock leaves all limits as they are. -/
theorem limits_tick (h : s.tick = some s') : s'.limits = s.limits :=
  tick_steps (R := fun s s' => s'.limits = s.limits) (fun h h' => h'.trans h) (fun _ _ _ => rfl)
    (fun s t => limits_of_frames (frames_eq (wake_tasks s t))) (fun s g => limits_deliverSignal g s)
    (fun s token => limits_of_frames (frames_eq (cancel_tasks s token))) h

/-- A task that stays as it is keeps its limits. -/
def KeepsLimits (t : TaskId) (s s' : State A) : Prop :=
  s'.core t = s.core t → s'.limits t = s.limits t

theorem begin_keepsLimits (t u : TaskId) (s : State A) : s.KeepsLimits t (s.begin u) := by
  intro hsame
  unfold begin at hsame ⊢
  split
  · next k hk =>
    split
    · rfl
    · next hended =>
      split
      · next haborted =>
        by_cases hu : t = u
        · subst hu
          rw [hk] at hsame
          dsimp only at hsame
          split at hsame
          · next e hstatus => exact absurd hstatus (hended e)
          · rw [if_pos haborted, finish_core _ hk] at hsame
            obtain ⟨k', hk', hcore⟩ := Option.map_eq_some_iff.1 hsame.symm
            obtain rfl := Option.some.inj (hk.symm.trans hk')
            have hdoing : k.status.doing = .ended := congrArg Core.doing hcore
            cases hstatus : k.status with
            | ended e => exact absurd hstatus (hended e)
            | running p => rw [hstatus] at hdoing; cases hdoing
            | waiting wait stamp => rw [hstatus] at hdoing; cases hdoing
        · rw [limits, frames_finish_of_ne _ hu, limits]
      · rfl
  · rfl

/-- **What the scheduler does changes no limits**, but for the steps of the tasks. -/
theorem run_keepsLimits (w : World A) (t : TaskId) (fuel : Nat) (current : Option TaskId) (s : State A) :
    Relation.ReflTransGen (fun s s' => s.KeepsLimits t s' ∨ ∃ u, s.advance w u = some s') s
      (s.run w fuel current) :=
  run_steps (fun hadvance => .inr ⟨_, hadvance⟩) (fun u s => .inl fun _ => congrFun (limits_park s u) t)
    (fun _ _ => .inl fun _ => rfl) (fun u s => .inl (begin_keepsLimits t u s))
    (fun htick => .inl fun _ => congrFun (limits_tick htick) t) fuel current s

theorem move_keepsLimits {m : Move} (h : s.turnOf w m = none) : s.KeepsLimits t ((s.move w m).getD s) :=
  move_aside (fun _ _ => rfl) (fun u s _ => congrFun (limits_park s u) t)
    (fun htick _ => congrFun (limits_tick htick) t) (fun g s _ => congrFun (limits_deliverSignal g s) t) h

end State

/-! ### Executions -/

namespace Execution

variable {w : World A}

/-- What is no step of any task changes the limits of task `t` only if it changes the task. -/
def KeepsLimits (x : Execution w) (t : TaskId) : Prop :=
  ∀ n, x.turn n = none → (x.state n).KeepsLimits t (x.state (n + 1))

theorem directed_keepsLimits {buses : Nat} {p : Program A Outcome} {memory : A.Memory} {moves : List Move}
    (t : TaskId) : (Execution.directed w buses p memory moves).KeepsLimits t := by
  intro n hturn
  cases n with
  | zero =>
    intro _
    cases t with
    | zero => rfl
    | succ t => rfl
  | succ n => exact State.move_keepsLimits hturn

variable {x : Execution w} {t : TaskId} {d i j n : Nat} {k k' : Core A} {ls : Limits}

/-- What is known of a turn. -/
theorem timed_of_turn (hturn : x.turn n = some t) (hk : (x.state n).core t = some k)
    (hk' : (x.state (n + 1)).core t = some k') :
    Timed w (x.state n).now k ((x.state n).limits t) k' ((x.state (n + 1)).limits t) :=
  State.advance_timed (advance_of_turn hturn) hk hk'

/-- A task that is not cut off keeps its limits while it is not its turn. -/
theorem limits_of_turn_ne (hkeeps : x.KeepsLimits t) (hturn : x.turn n ≠ some t)
    (huncut : x.Uncut t d n (n + 1)) : (x.state (n + 1)).limits t = (x.state n).limits t := by
  obtain ⟨k, hk, hended, -⟩ := huncut n (Nat.le_refl n) (Nat.le_succ n)
  obtain ⟨k', hk', hended', -⟩ := huncut (n + 1) (Nat.le_succ n) (Nat.le_refl _)
  obtain rfl := same_of_turn_ne hturn hk hended hk' hended'
  cases hother : x.turn n with
  | none => exact hkeeps n hother (hk'.trans hk.symm)
  | some u =>
    have hne : t ≠ u := fun heq => hturn (heq ▸ hother)
    rw [State.limits, State.frames_of_advance (advance_of_turn hother) hne, State.limits]

/-- As long as a task does not leave a call, its limit and those around it stay. -/
theorem limits_succ (hkeeps : x.KeepsLimits t) (huncut : x.Uncut t d n (n + 1))
    (hls : ls <:+ (x.state n).limits t) (hlength : ls.length ≤ d) :
    ls <:+ (x.state (n + 1)).limits t := by
  by_cases hturn : x.turn n = some t
  · obtain ⟨k, hk, -, -⟩ := huncut n (Nat.le_refl n) (Nat.le_succ n)
    obtain ⟨k', hk', hended, hdepth⟩ := huncut (n + 1) (Nat.le_succ n) (Nat.le_refl _)
    rcases (timed_of_turn hturn hk hk').suffix hended with hfewer | hmore
    · refine List.suffix_of_suffix_length_le hls hfewer ?_
      rw [State.length_limits hk']
      exact Nat.le_trans hlength hdepth
    · exact hls.trans hmore
  · rw [limits_of_turn_ne hkeeps hturn huncut]
    exact hls

theorem limits_followed (hkeeps : x.KeepsLimits t) (hij : i ≤ j) (huncut : x.Uncut t d i j)
    (hls : ls <:+ (x.state i).limits t) (hlength : ls.length ≤ d) :
    ls <:+ (x.state j).limits t := by
  induction hij with
  | refl => exact hls
  | @step j hij ih =>
    exact limits_succ hkeeps (huncut.tail hij) (ih (huncut.mono (Nat.le_refl i) (Nat.le_succ j)))
      hlength

end Execution

end Machine

end Orchestra
