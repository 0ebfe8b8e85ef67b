import Orchestra.Proofs.Cores

/-!
# Every step of the machine is a step

* `State.Stepped` — task `t` has taken a step, and the other tasks are as they were, or jobs that have been
  started;
* `State.leave_stepped`, `State.finish_stepped` — leaving a call and ending are steps;
* `State.handle_cases`, `State.awaitTermination_cases` — how a process comes to be told of signals;
* `State.proceed_stepped`, `State.operate_stepped` — so are the end of a wait and an operation;
* `State.advance_stepped` — and so is whatever the machine does with a task whose turn it is.
-/

namespace Orchestra.Machine

variable {A : Application}

/-! ### What the parts of a step change -/

namespace State

variable (s : State A) (t u : TaskId) (b : BusId)

@[simp] theorem wake_tasks : (s.wake t).tasks = s.tasks := by
  unfold wake
  split
  · split <;> rfl
  · rfl

@[simp] theorem wake_buses : (s.wake t).buses = s.buses := by
  unfold wake
  split
  · split <;> rfl
  · rfl

@[simp] theorem wakeAll_tasks (ts : List TaskId) : (s.wakeAll ts).tasks = s.tasks := by
  induction ts generalizing s with
  | nil => rfl
  | cons t rest ih => exact (ih (s.wake t)).trans (s.wake_tasks t)

@[simp] theorem wakeAll_buses (ts : List TaskId) : (s.wakeAll ts).buses = s.buses := by
  induction ts generalizing s with
  | nil => rfl
  | cons t rest ih => exact (ih (s.wake t)).trans (s.wake_buses t)

@[simp] theorem onTask_buses (f : Task A → Task A) : (s.onTask t f).buses = s.buses := rfl

@[simp] theorem onLock_tasks (f : Lock → Lock × List TaskId) : (s.onLock b f).tasks = s.tasks := by
  unfold onLock
  split
  · rfl
  · simp

theorem onLock_bus (f : Lock → Lock × List TaskId) :
    (s.onLock b f).bus = s.bus.onLock b fun l => (f l).1 := by
  funext c
  unfold onLock Buses.onLock bus
  cases hb : s.buses[b]? with
  | none =>
    by_cases hc : c = b
    · subst hc
      simp [hb]
    · simp [Function.update_of_ne hc]
  | some bs =>
    by_cases hc : c = b
    · subst hc
      simp [List.getElem?_set_self (List.getElem?_eq_some_iff.1 hb).1]
    · simp [Function.update_of_ne hc, List.getElem?_set_ne (Ne.symm hc)]

theorem setListeners_bus (set : List ListenerId) :
    (s.setListeners b set).bus = s.bus.setListeners b set := by
  funext c
  unfold setListeners Buses.setListeners bus
  by_cases hc : c = b
  · subst hc
    simp
  · simp [Function.update_of_ne hc, List.getElem?_modify_ne _ _ (Ne.symm hc)]

@[simp] theorem setListeners_tasks (set : List ListenerId) :
    (s.setListeners b set).tasks = s.tasks := rfl

@[simp] theorem cancelOne_tasks (k : TokenId) : (s.cancelOne k).tasks = s.tasks := by
  unfold cancelOne
  split <;> simp

@[simp] theorem cancelOne_buses (k : TokenId) : (s.cancelOne k).buses = s.buses := by
  unfold cancelOne
  split <;> simp

theorem foldl_cancelOne_tasks (ks : List TokenId) :
    (ks.foldl (fun s k => s.cancelOne k) s).tasks = s.tasks := by
  induction ks generalizing s with
  | nil => rfl
  | cons k rest ih => exact (ih (s.cancelOne k)).trans (s.cancelOne_tasks k)

theorem foldl_cancelOne_buses (ks : List TokenId) :
    (ks.foldl (fun s k => s.cancelOne k) s).buses = s.buses := by
  induction ks generalizing s with
  | nil => rfl
  | cons k rest ih => exact (ih (s.cancelOne k)).trans (s.cancelOne_buses k)

@[simp] theorem cancel_tasks (k : TokenId) : (s.cancel k).tasks = s.tasks := by
  unfold cancel
  split
  · rfl
  · rw [cancelOne_tasks, foldl_cancelOne_tasks]

@[simp] theorem cancel_buses (k : TokenId) : (s.cancel k).buses = s.buses := by
  unfold cancel
  split
  · rfl
  · rw [cancelOne_buses, foldl_cancelOne_buses]

@[simp] theorem discharge_tasks (crew : CrewId) (number : Nat) (name : String) :
    (s.discharge crew number name).tasks = s.tasks := by
  unfold discharge
  dsimp only
  split
  · split
    · rw [wakeAll_tasks]
      rfl
    · rfl
  · rfl

@[simp] theorem discharge_buses (crew : CrewId) (number : Nat) (name : String) :
    (s.discharge crew number name).buses = s.buses := by
  unfold discharge
  dsimp only
  split
  · split
    · rw [wakeAll_buses]
      rfl
    · rfl
  · rfl

variable {s t u}

theorem core_eq {s' : State A} (h : s'.tasks = s.tasks) : s'.core = s.core := by
  funext u
  rw [core, core, h]

theorem bus_eq {s' : State A} (h : s'.buses = s.buses) : s'.bus = s.bus := by
  funext c
  rw [bus, bus, h]

theorem core_of_task {k : Task A} (h : s.tasks[t]? = some k) : s.core t = some k.core := by
  rw [core, h]
  rfl

/-- What a task waits for, with the signal that may have been handed to it. -/
theorem waits_of_core {wait : Wait A} {calls : Calls A} {passes : List Pass}
    (h : s.core t = some ⟨.waiting wait, calls, passes⟩) :
    ∃ k wait' stamp, s.tasks[t]? = some k ∧ k.status = .waiting wait' stamp ∧ wait'.bare = wait := by
  obtain ⟨k, hk, hcore⟩ := Option.map_eq_some_iff.1 h
  have hdoing : k.status.doing = .waiting wait := congrArg Core.doing hcore
  cases hstatus : k.status with
  | running q => rw [hstatus] at hdoing; cases hdoing
  | ended e => rw [hstatus] at hdoing; cases hdoing
  | waiting wait' stamp =>
    rw [hstatus] at hdoing
    exact ⟨k, wait', stamp, hk, hstatus, Doing.waiting.inj hdoing⟩

theorem core_onTask_self {k : Task A} (h : s.tasks[t]? = some k) (f : Task A → Task A) :
    (s.onTask t f).core t = some (f k).core := by
  rw [core, onTask]
  simp [h]

theorem tasks_onTask_self {k : Task A} (h : s.tasks[t]? = some k) (f : Task A → Task A) :
    (s.onTask t f).tasks[t]? = some (f k) := by
  rw [onTask]
  simp [h]

theorem core_onTask_of_ne (h : u ≠ t) (f : Task A → Task A) : (s.onTask t f).core u = s.core u := by
  rw [core, core, onTask]
  simp [List.getElem?_modify_ne _ _ (Ne.symm h)]

/-- A change to a task that spares its core spares all cores. -/
theorem core_onTask_of_core {f : Task A → Task A} (hf : ∀ k, (f k).core = k.core) :
    (s.onTask t f).core = s.core := by
  funext u
  by_cases h : u = t
  · subst h
    rw [core, core, onTask]
    cases hk : s.tasks[u]? <;> simp [hk, hf]
  · exact core_onTask_of_ne h f

theorem core_setStatus {c : Core A} (h : s.core t = some c) (status : Status A) :
    (s.setStatus t status).core t = some ⟨status.doing, c.calls, c.passes⟩ := by
  obtain ⟨k, hk, rfl⟩ := Option.map_eq_some_iff.1 h
  exact core_onTask_self hk _

theorem core_abort (s : State A) (t : TaskId) : (s.abort t).core = s.core := by
  unfold abort
  split
  · rfl
  · rfl
  · exact (core_eq (wake_tasks _ t)).trans (core_onTask_of_core fun _ => rfl)

theorem bus_abort (s : State A) (t : TaskId) : (s.abort t).bus = s.bus := by
  unfold abort
  split
  · rfl
  · rfl
  · exact bus_eq (wake_buses _ t)

theorem bus_claim (s : State A) (b : BusId) (c : Claim) :
    (s.claim b c).bus = s.bus.onLock b fun l => l.ask c :=
  onLock_bus s b _

theorem core_claim (s : State A) (b : BusId) (c : Claim) : (s.claim b c).core = s.core :=
  core_eq (onLock_tasks s b _)

/-! ### Giving back -/

theorem dropClaim_tasks (s : State A) (t : TaskId) : (s.dropClaim t).tasks = s.tasks := by
  unfold dropClaim
  split
  · rfl
  · split
    · rfl
    · exact onLock_tasks s _ _

theorem claim?_bare (w : Wait A) (t : TaskId) : w.bare.claim? t = w.claim? t := by
  cases w <;> rfl

theorem dropClaim_bus {k : Task A} (h : s.tasks[t]? = some k) :
    (s.dropClaim t).bus = s.bus.withdraw (k.status.doing.claim? t) := by
  unfold dropClaim
  rw [h, Option.bind_some]
  cases hstatus : k.status with
  | running p => simp only [Task.wait?, hstatus]; rfl
  | ended e => simp only [Task.wait?, hstatus]; rfl
  | waiting wait stamp =>
    simp only [Task.wait?, hstatus]
    have hclaim : (Status.waiting wait stamp).doing.claim? t = wait.claim? t := claim?_bare wait t
    rw [hclaim]
    cases wait.claim? t with
    | none => rfl
    | some bc => exact onLock_bus s bc.1 _

theorem foldl_release_tasks (ps : List Pass) (s : State A) :
    (ps.foldl (fun s p => s.onLock p.bus fun l => l.release ⟨t, .read⟩) s).tasks = s.tasks := by
  induction ps generalizing s with
  | nil => rfl
  | cons p rest ih => exact (ih _).trans (onLock_tasks s _ _)

theorem foldl_release_bus (ps : List Pass) (s : State A) :
    (ps.foldl (fun s p => s.onLock p.bus fun l => l.release ⟨t, .read⟩) s).bus
      = s.bus.endPasses t ps := by
  induction ps generalizing s with
  | nil => rfl
  | cons p rest ih =>
    refine (ih _).trans ?_
    rw [onLock_bus]
    rfl

theorem endPasses_tasks {k : Task A} (h : s.tasks[t]? = some k) (depth : Nat) :
    (s.endPasses t depth).tasks
      = (s.onTask t fun k => { k with passes := k.passes.drop (k.passes.length - depth) }).tasks := by
  unfold endPasses
  rw [h]
  dsimp only
  rw [foldl_release_tasks]
  simp only [onTask]
  refine List.ext_getElem? fun i => ?_
  by_cases hi : i = t
  · subst hi
    simp [h]
  · simp [List.getElem?_modify_ne _ _ (Ne.symm hi)]

theorem endPasses_bus {k : Task A} (h : s.tasks[t]? = some k) (depth : Nat) :
    (s.endPasses t depth).bus = s.bus.endPasses t (k.passes.take (k.passes.length - depth)) := by
  unfold endPasses
  rw [h]
  exact foldl_release_bus _ _

/-! ### Every step is a step -/

/-- Nothing has happened to tasks and buses, except that jobs may have been started. -/
structure Grown (w : World A) (s s' : State A) : Prop where
  bus : s'.bus = s.bus
  core : ∀ u, s'.core u = s.core u ∨
    s.core u = none ∧ ∃ job, s'.core u = some ⟨.running (w.job job), [], []⟩

/-- Task `t` has taken a step, and the other tasks are as they were or have been started. -/
structure Stepped (w : World A) (t : TaskId) (s s' : State A) : Prop where
  own : ∃ c c', s.core t = some c ∧ s'.core t = some c' ∧ Step w t s.bus c s'.bus c'
  others : ∀ u, u ≠ t → s'.core u = s.core u ∨
    s.core u = none ∧ ∃ job, s'.core u = some ⟨.running (w.job job), [], []⟩

variable {s' : State A} {w : World A} {k : Task A}

theorem Grown.of_eq (htasks : s'.tasks = s.tasks) (hbuses : s'.buses = s.buses) : s.Grown w s' :=
  ⟨bus_eq hbuses, fun u => .inl (congrFun (core_eq htasks) u)⟩

theorem Grown.startTask (w : World A) (s : State A) (role : Role) (job : A.Job) :
    s.Grown w (s.startTask role (w.job job)).1 where
  bus := rfl
  core u := by
    simp only [State.core, State.startTask]
    rcases Nat.lt_trichotomy u s.tasks.length with h | h | h
    · rw [List.getElem?_append_left h]
      exact .inl rfl
    · subst h
      rw [List.getElem?_eq_none (Nat.le_refl _)]
      exact .inr ⟨rfl, job, by simp; rfl⟩
    · rw [List.getElem?_eq_none (Nat.le_of_lt h), List.getElem?_eq_none (by simp; omega)]
      exact .inl rfl

theorem Grown.core_of {c : Core A} (h : s.Grown w s') (hc : s.core t = some c) :
    s'.core t = some c := by
  rcases h.core t with hsame | ⟨hnone, -⟩
  · rw [hsame, hc]
  · rw [hc] at hnone
    cases hnone

/-- A task takes on another status. -/
theorem Grown.stepped {s₁ : State A} {c : Core A} (h : s.Grown w s₁) (hc : s.core t = some c)
    (status : Status A) (hbus : s'.bus = s₁.bus) (hcore : s'.core = (s₁.setStatus t status).core)
    (hstep : Step w t s.bus c s.bus ⟨status.doing, c.calls, c.passes⟩) : s.Stepped w t s' where
  own := by
    refine ⟨c, _, hc, ?_, by rw [hbus, h.bus]; exact hstep⟩
    rw [hcore]
    exact core_setStatus (h.core_of hc) status
  others u hu := by
    rw [hcore, setStatus, core_onTask_of_ne hu]
    exact h.core u

/-- A task makes a claim and waits. -/
theorem stepped_claim {wait : Wait A} {b : BusId} {c : Claim} {core : Core A}
    (hc : s.core t = some core)
    (hstep : Step w t s.bus core (s.bus.onLock b fun l => l.ask c)
      ⟨.waiting wait.bare, core.calls, core.passes⟩) :
    s.Stepped w t ((s.claim b c).await t wait) where
  own := by
    refine ⟨core, ⟨.waiting wait.bare, core.calls, core.passes⟩, hc, ?_, ?_⟩
    · exact core_setStatus (by rw [core_claim, hc]) _
    · rwa [await, setStatus, bus_eq (onTask_buses _ t _), bus_claim]
  others u hu := by
    rw [await, setStatus, core_onTask_of_ne hu, core_claim]
    exact .inl rfl

/-- Who leaves a call goes on as its caller. -/
theorem leave_core {f : Frame A} {rest : List (Frame A)} (o : Outcome) (h : s.tasks[t]? = some k) :
    (s.leave t f rest o).core t = some ⟨.running (f.caller o),
      rest.map fun f => (f.depth, f.caller), k.passes.drop (k.passes.length - f.depth)⟩ := by
  have hdrop : (s.dropClaim t).tasks[t]? = some k := by rw [dropClaim_tasks, h]
  have hpasses : ((s.dropClaim t).endPasses t f.depth).tasks[t]?
      = some { k with passes := k.passes.drop (k.passes.length - f.depth) } := by
    rw [endPasses_tasks hdrop, tasks_onTask_self hdrop]
  rw [leave, core_onTask_self hpasses]
  rfl

theorem leave_stepped {f : Frame A} {inner rest : List (Frame A)} (o : Outcome)
    (h : s.tasks[t]? = some k) (hframes : k.frames = inner ++ f :: rest)
    (hended : k.status.doing ≠ .ended)
    (hreplacing : ∀ b e copy next, k.status.doing ≠ .waiting (.replacing b e copy next)) :
    s.Stepped w t (s.leave t f rest o) := by
  have hdrop : (s.dropClaim t).tasks[t]? = some k := by rw [dropClaim_tasks, h]
  have hbus : (s.leave t f rest o).bus = (s.bus.withdraw (k.status.doing.claim? t)).endPasses t
      (k.passes.take (k.passes.length - f.depth)) := by
    rw [leave, bus_eq (onTask_buses _ t _), endPasses_bus hdrop, dropClaim_bus h]
  refine ⟨⟨k.core, _, core_of_task h, leave_core o h, ?_⟩, fun u hu => .inl ?_⟩
  · rw [hbus, Task.core, hframes, List.map_append, List.map_cons]
    exact Step.leaves o hended hreplacing
  · rw [leave, core_onTask_of_ne hu, core_eq (endPasses_tasks hdrop f.depth), core_onTask_of_ne hu,
      core_eq (dropClaim_tasks s t)]

/-- Leaving a crew and waking others touches no tasks. -/
theorem finish_tasks (e : Ending) (h : s.tasks[t]? = some k) :
    (s.finish t e).tasks = (((s.dropClaim t).endPasses t 0).onTask t fun k =>
      { k with frames := [], status := .ended e }).tasks := by
  rw [finish, h]
  dsimp only
  rw [wakeAll_tasks]
  split <;> simp

theorem finish_buses (e : Ending) (h : s.tasks[t]? = some k) :
    (s.finish t e).buses = ((s.dropClaim t).endPasses t 0).buses := by
  rw [finish, h]
  dsimp only
  rw [wakeAll_buses]
  split <;> simp

theorem finish_core (e : Ending) (h : s.tasks[t]? = some k) :
    (s.finish t e).core t = some ⟨.ended, [], []⟩ := by
  have hdrop : (s.dropClaim t).tasks[t]? = some k := by rw [dropClaim_tasks, h]
  have hpasses : ((s.dropClaim t).endPasses t 0).tasks[t]?
      = some { k with passes := k.passes.drop (k.passes.length - 0) } := by
    rw [endPasses_tasks hdrop, tasks_onTask_self hdrop]
  rw [core_eq (finish_tasks e h), core_onTask_self hpasses]
  simp [Task.core, Status.doing]

/-- **The end of a task** is a step of it. -/
theorem finish_stepped (e : Ending) (h : s.tasks[t]? = some k) (hended : k.status.doing ≠ .ended) :
    s.Stepped w t (s.finish t e) := by
  have hdrop : (s.dropClaim t).tasks[t]? = some k := by rw [dropClaim_tasks, h]
  refine ⟨⟨k.core, _, core_of_task h, finish_core e h, ?_⟩, fun u hu => .inl ?_⟩
  · rw [bus_eq (finish_buses e h), endPasses_bus hdrop, dropClaim_bus h, Nat.sub_zero,
      List.take_length]
    exact Step.finishes hended
  · rw [core_eq (finish_tasks e h), core_onTask_of_ne hu, core_eq (endPasses_tasks hdrop 0),
      core_onTask_of_ne hu, core_eq (dropClaim_tasks s t)]

theorem expired_split {now : Nat} {frames rest : List (Frame A)} {f : Frame A} {limit : Duration}
    (h : expired now frames = some (f, limit, rest)) : ∃ inner, frames = inner ++ f :: rest := by
  induction frames with
  | nil => cases h
  | cons g outer ih =>
    rw [expired] at h
    split at h
    · obtain ⟨inner, hinner⟩ := ih h
      exact ⟨g :: inner, by rw [hinner, List.cons_append]⟩
    · split at h
      · cases h
        exact ⟨[], rfl⟩
      · obtain ⟨inner, hinner⟩ := ih h
        exact ⟨g :: inner, by rw [hinner, List.cons_append]⟩

theorem claimWaits_eq_false {b : BusId} (h : s.claimWaits b t = false) :
    ∃ bs, s.bus b = some bs ∧ bs.lock.isWaiting t = false := by
  unfold claimWaits at h
  cases hb : s.buses[b]? with
  | none =>
    rw [hb] at h
    cases h
  | some bs =>
    rw [hb] at h
    exact ⟨bs, hb, h⟩

theorem listenersOf_eq {b : BusId} {bs : BusState} (h : s.bus b = some bs) :
    s.listenersOf b = bs.listeners := by
  have hb : s.buses[b]? = some bs := h
  rw [listenersOf, hb]
  rfl

/-- A task whose wait has to do with no bus goes on. -/
theorem stepped_resume {wait : Wait A}
    (hc : s.core t = some ⟨.waiting wait, k.core.calls, k.core.passes⟩)
    (hclaim : wait.claim? t = none) {p : Program A Outcome} (hp : wait.MayGoOn p) :
    s.Stepped w t (s.resume t p) := by
  refine (Grown.of_eq rfl rfl).stepped hc (.running p) rfl rfl ?_
  refine Step.goes hclaim ?_ rfl ?_ ?_ ?_
  · exact fun h => nomatch h
  · exact fun h => nomatch h
  · exact fun _ _ h => nomatch h
  · intro q hq
    obtain rfl : q = p := hq
    exact hp

/-- A task goes on and gives a claim back. -/
theorem stepped_release {s₁ : State A} {core : Core A} {b : BusId} {c : Claim}
    {p : Program A Outcome} (hc : s.core t = some core) (htasks : s₁.tasks = s.tasks)
    (hstep : Step w t s.bus core (s₁.bus.release b c) ⟨.running p, core.calls, core.passes⟩) :
    s.Stepped w t ((s₁.resume t p).onLock b fun l => l.release c) where
  own := by
    refine ⟨core, ⟨.running p, core.calls, core.passes⟩, hc, ?_, ?_⟩
    · rw [core_eq (onLock_tasks _ b _)]
      exact core_setStatus (by rw [core_eq htasks, hc]) _
    · rw [onLock_bus, resume, setStatus, bus_eq (onTask_buses _ t _)]
      exact hstep
  others u hu := by
    rw [core_eq (onLock_tasks _ b _), resume, setStatus, core_onTask_of_ne hu, core_eq htasks]
    exact .inl rfl

/-- When a wait is over that has to do with no bus, the task goes on, and nothing else happens. -/
theorem resumes_of_proceed {wait : Wait A} (hclaim : wait.claim? t = none) (h : s.proceed t wait = some s') :
    ∃ p, wait.bare.MayGoOn p ∧ s' = s.resume t p := by
  cases wait with
  | beginning | reading | editing | replacing => cases hclaim
  | forever => cases h
  | sleeping due next =>
    obtain ⟨-, hp⟩ := Option.ite_none_right_eq_some.1 h
    exact ⟨next, rfl, (Option.some.inj hp).symm⟩
  | cancelled token next =>
    obtain ⟨-, hp⟩ := Option.ite_none_right_eq_some.1 h
    exact ⟨next, rfl, (Option.some.inj hp).symm⟩
  | cancelledBy token due next =>
    rw [proceed] at h
    split at h
    · exact ⟨_, ⟨true, rfl⟩, (Option.some.inj h).symm⟩
    · obtain ⟨-, hp⟩ := Option.ite_none_right_eq_some.1 h
      exact ⟨_, ⟨false, rfl⟩, (Option.some.inj hp).symm⟩
  | joining task next =>
    rw [proceed] at h
    split at h
    · exact ⟨_, ⟨_, rfl⟩, (Option.some.inj h).symm⟩
    · cases h
  | crew crew due next =>
    rw [proceed] at h
    split at h
    · exact ⟨_, ⟨true, rfl⟩, (Option.some.inj h).symm⟩
    · obtain ⟨-, hp⟩ := Option.ite_none_right_eq_some.1 h
      exact ⟨_, ⟨false, rfl⟩, (Option.some.inj hp).symm⟩
  | termination request signal next =>
    cases signal with
    | some g =>
      rw [proceed] at h
      split at h
      · exact ⟨_, ⟨.requested, rfl⟩, (Option.some.inj h).symm⟩
      · exact ⟨_, ⟨.signal g, rfl⟩, (Option.some.inj h).symm⟩
    | none =>
      obtain ⟨-, hp⟩ := Option.ite_none_right_eq_some.1 h
      exact ⟨_, ⟨.requested, rfl⟩, (Option.some.inj hp).symm⟩

theorem proceed_stepped {wait : Wait A} {stamp : Option Nat} (h : s.tasks[t]? = some k)
    (hstatus : k.status = .waiting wait stamp) (hs' : s.proceed t wait = some s') :
    s.Stepped w t s' := by
  have hcore : s.core t = some ⟨.waiting wait.bare, k.core.calls, k.core.passes⟩ := by
    rw [core_of_task h, Task.core, hstatus]
    rfl
  cases wait with
  | beginning b next =>
    rw [proceed] at hs'
    split at hs'
    · cases hs'
    · next hwaits =>
      obtain ⟨bs, hbs, hwaiting⟩ := claimWaits_eq_false (Bool.eq_false_iff.2 hwaits)
      obtain rfl := Option.some.inj hs'
      refine ⟨⟨_, _, hcore, core_setStatus (core_onTask_self h _) _, ?_⟩, fun u hu => .inl ?_⟩
      · rw [listenersOf_eq hbs]
        exact Step.begins hbs hwaiting
      · rw [resume, setStatus, core_onTask_of_ne hu, core_onTask_of_ne hu]
  | reading b next =>
    rw [proceed] at hs'
    split at hs'
    · cases hs'
    · next hwaits =>
      obtain ⟨bs, hbs, hwaiting⟩ := claimWaits_eq_false (Bool.eq_false_iff.2 hwaits)
      obtain rfl := Option.some.inj hs'
      refine stepped_release hcore rfl ?_
      rw [listenersOf_eq hbs]
      exact Step.reads hbs hwaiting
  | editing b e next =>
    rw [proceed] at hs'
    split at hs'
    · cases hs'
    · next hwaits =>
      obtain ⟨bs, hbs, hwaiting⟩ := claimWaits_eq_false (Bool.eq_false_iff.2 hwaits)
      obtain rfl := Option.some.inj hs'
      refine (Grown.of_eq rfl rfl).stepped hcore _ rfl rfl ?_
      rw [listenersOf_eq hbs]
      exact Step.copies hbs hwaiting
  | replacing b e copy next =>
    obtain rfl := Option.some.inj hs'
    refine stepped_release hcore (setListeners_tasks s b _) ?_
    rw [setListeners_bus]
    exact Step.replaces
  | _ =>
    obtain ⟨p, hp, rfl⟩ := resumes_of_proceed rfl hs'
    exact stepped_resume hcore rfl hp

section Apart

variable {s₁ : State A} {op : Op A} {next : op.Answer → Program A Outcome}

/-- A task whose next operation has to do with no bus goes on. -/
theorem Grown.goesOn (h : s.Grown w s₁)
    (hc : s.core t = some ⟨.running (.perform op next), k.core.calls, k.core.passes⟩)
    (hop : op.IsApart) (x : op.Answer) (hbus : s'.bus = s₁.bus)
    (hcore : s'.core = (s₁.resume t (next x)).core) : s.Stepped w t s' := by
  refine h.stepped hc (.running (next x)) hbus hcore (Step.goes rfl ?_ rfl ?_ ?_ ?_)
  · exact fun h => nomatch h
  · exact fun h => nomatch h
  · intro op' next' heq
    obtain ⟨rfl, -⟩ := Program.perform.inj (Doing.running.inj heq)
    exact hop
  · exact fun _ hq => ⟨x, hq⟩

/-- A task whose next operation has to do with no bus waits. -/
theorem Grown.waits (h : s.Grown w s₁)
    (hc : s.core t = some ⟨.running (.perform op next), k.core.calls, k.core.passes⟩)
    (hop : op.IsApart) (wait : Wait A) (hwait : wait.bare.claim? t = none)
    (hnext : ∀ p, wait.bare.MayGoOn p → ∃ x, p = next x)
    (hbus : s'.bus = s₁.bus) (hcore : s'.core = (s₁.await t wait).core) : s.Stepped w t s' := by
  refine h.stepped hc (.waiting wait none) hbus hcore (Step.goes rfl ?_ hwait ?_ ?_ hnext)
  · exact fun h => nomatch h
  · exact fun h => nomatch h
  · intro op' next' heq
    obtain ⟨rfl, -⟩ := Program.perform.inj (Doing.running.inj heq)
    exact hop

end Apart

theorem panic_stepped (payload : Payload) (h : s.tasks[t]? = some k)
    (hrunning : ∀ wait, k.status.doing ≠ .waiting wait) (hended : k.status.doing ≠ .ended) :
    s.Stepped w t (s.panic t payload) := by
  rw [panic, h, Option.map_some]
  cases hframes : k.frames with
  | nil => exact finish_stepped .panicked h hended
  | cons f rest =>
    have hinner : k.frames = [] ++ f :: rest := hframes
    exact leave_stepped _ h hinner hended fun _ _ _ _ => hrunning _

theorem depthOf_core (k : Task A) :
    depthOf k.core.calls = ((k.frames.head?).map Frame.depth).getD 0 := by
  cases hframes : k.frames <;> simp [depthOf, Task.core, hframes]

/-- The end of the innermost delivery of a call. -/
theorem endDelivery_stepped {next : Unit → Program A Outcome} (h : s.tasks[t]? = some k)
    (hc : s.core t = some ⟨.running (.perform .endDelivery next), k.core.calls, k.core.passes⟩) :
    s.Stepped w t ((s.endPass t).resume t (next ())) := by
  have hendPass : s.endPass t = if depthOf k.core.calls < k.passes.length
      then s.endPasses t (k.passes.length - 1) else s := by
    rw [endPass, h, depthOf_core]
  rw [hendPass]
  split
  · next hdepth =>
    obtain ⟨p, rest, hpasses⟩ := List.exists_cons_of_length_pos (Nat.zero_lt_of_lt hdepth)
    have hlength : k.passes.length - (k.passes.length - 1) = 1 := by
      rw [hpasses, List.length_cons]
      omega
    have hended : (s.endPasses t (k.passes.length - 1)).tasks[t]? = some { k with passes := rest } := by
      rw [endPasses_tasks h, tasks_onTask_self h, hlength, hpasses, List.drop_one, List.tail_cons]
    have hbus : (s.endPasses t (k.passes.length - 1)).bus = s.bus.release p.bus ⟨t, .read⟩ := by
      rw [endPasses_bus h, hlength, hpasses]
      rfl
    have hown := core_setStatus (core_of_task hended) (.running (next ()))
    refine ⟨⟨_, _, hc, hown, ?_⟩, fun u hu => .inl ?_⟩
    · have hcore : k.core.passes = p :: rest := hpasses
      rw [resume, setStatus, bus_eq (onTask_buses _ t _), hbus, hcore]
      refine Step.ends ?_
      rw [hpasses, List.length_cons] at hdepth
      exact Nat.le_of_lt_succ hdepth
    · rw [resume, setStatus, core_onTask_of_ne hu, core_eq (endPasses_tasks h _),
        core_onTask_of_ne hu]
  · next hdepth =>
    exact (Grown.of_eq rfl rfl).stepped hc (.running (next ())) rfl rfl
      (Step.endsNothing (Nat.le_of_not_lt hdepth))

/-! ### Signals -/

/-- Whoever has the process told of signals does nothing else, and unless it cannot be told of one of them it is
told of all of them. -/
theorem handle_cases (gs : List Signal) (s : State A) : ∃ handled, (∀ g ∈ s.handled, g ∈ handled) ∧
    ((∃ g error, s.refused.lookup g = some error ∧ s.handle gs = ({ s with handled := handled }, some error)) ∨
      (∀ g ∈ gs, g ∈ handled) ∧ s.handle gs = ({ s with handled := handled }, none)) := by
  induction gs generalizing s with
  | nil => exact ⟨s.handled, fun _ hg => hg, .inr ⟨nofun, rfl⟩⟩
  | cons g rest ih =>
    rw [handle]
    cases hrefused : s.refused.lookup g with
    | some error => exact ⟨s.handled, fun _ hg => hg, .inl ⟨g, error, hrefused, rfl⟩⟩
    | none =>
      obtain ⟨handled, hmore, hresult⟩ :=
        ih { s with handled := if g ∈ s.handled then s.handled else g :: s.handled }
      have hkept : ∀ g' ∈ g :: s.handled, g' ∈ handled := by
        intro g' hg'
        refine hmore g' ?_
        show g' ∈ if g ∈ s.handled then s.handled else g :: s.handled
        split
        · next hmem => exact (List.mem_cons.1 hg').elim (fun heq => heq ▸ hmem) id
        · exact hg'
      refine ⟨handled, fun g' hg' => hkept g' (List.mem_cons_of_mem _ hg'), hresult.imp_right ?_⟩
      rintro ⟨hall, heq⟩
      exact ⟨List.forall_mem_cons.2 ⟨hkept g List.mem_cons_self, hall⟩, heq⟩

/-- **How a wait for termination begins**: it is over at once since there is a request, or since the process cannot
be told of some signal, or the process is told of all of them and the task waits. -/
theorem awaitTermination_cases (s : State A) (t : TaskId) (request : TokenId)
    (next : Termination → Program A Outcome) :
    (s.isCancelled request = true ∧ s.awaitTermination t request next = s.resume t (next .requested)) ∨
      ∃ handled, (∀ g ∈ s.handled, g ∈ handled) ∧
        ((∃ g error, s.refused.lookup g = some error ∧ s.awaitTermination t request next
            = { s with handled := handled }.resume t (next (.unavailable error))) ∨
          (∀ g, g ∈ handled) ∧ s.awaitTermination t request next
            = { s with handled := handled }.await t (.termination request none next)) := by
  unfold awaitTermination
  split
  · next hfirst => exact .inl ⟨(Bool.and_eq_true_iff.1 hfirst).2, rfl⟩
  · obtain ⟨handled, hkept, ⟨g, error, hrefused, heq⟩ | ⟨hall, heq⟩⟩ := handle_cases Signal.all s
    · exact .inr ⟨handled, hkept, .inl ⟨g, error, hrefused, by rw [heq]⟩⟩
    · exact .inr ⟨handled, hkept, .inr ⟨fun g => hall g (by cases g <;> decide), by rw [heq]⟩⟩

theorem operate_stepped {op : Op A} {next : op.Answer → Program A Outcome}
    (h : s.tasks[t]? = some k) (hstatus : k.status = .running (.perform op next)) :
    s.Stepped w t (s.operate w t op next) := by
  have hcore : s.core t = some ⟨.running (.perform op next), k.core.calls, k.core.passes⟩ := by
    rw [core_of_task h, Task.core, hstatus]
    rfl
  have hsame : s.Grown w s := Grown.of_eq rfl rfl
  cases op with
  | call callee limit =>
    refine ⟨⟨_, _, hcore, core_onTask_self h _, ?_⟩, fun u hu => .inl (core_onTask_of_ne hu _)⟩
    exact Step.enters
  | panic payload =>
    have hdoing : k.status.doing = .running (.perform (.panic payload) next) := by
      rw [hstatus]
      rfl
    refine panic_stepped payload h (fun wait heq => ?_) fun heq => ?_
    · cases hdoing.symm.trans heq
    · cases hdoing.symm.trans heq
  | enclosing b =>
    have hset : s.enclosing t b = (k.passes.find? fun p => p.bus = b).map Pass.set := by
      rw [enclosing, h]
      rfl
    rw [operate, hset]
    exact hsame.stepped hcore (.running _) rfl rfl Step.looks
  | beginDelivery b => exact stepped_claim hcore Step.wantsToBegin
  | endDelivery => exact endDelivery_stepped h hcore
  | listeners b => exact stepped_claim hcore Step.wantsToRead
  | edit b e => exact stepped_claim hcore Step.wantsToEdit
  | sleep millis =>
    exact hsame.waits hcore trivial (.sleeping (s.now + millis) (next ())) rfl
      (fun _ hp => ⟨(), hp⟩) rfl rfl
  | hang => exact hsame.waits hcore trivial .forever rfl (fun _ hp => hp.elim) rfl rfl
  | newToken parent =>
    exact hsame.goesOn hcore trivial _ rfl rfl
  | cancel token =>
    exact hsame.goesOn hcore trivial () (bus_eq (cancel_buses _ token))
      (core_eq (cancel_tasks _ token))
  | isCancelled token =>
    exact hsame.goesOn hcore trivial _ rfl rfl
  | awaitCancel token =>
    exact hsame.waits hcore trivial (.cancelled token (next ())) rfl (fun _ hp => ⟨(), hp⟩) rfl rfl
  | awaitCancelFor token millis =>
    exact hsame.waits hcore trivial (.cancelledBy token (s.now + millis) next) rfl (fun _ hp => hp) rfl rfl
  | spawn name job =>
    exact (Grown.startTask w s .task job).goesOn hcore trivial () rfl rfl
  | join name =>
    rw [operate]
    cases s.handles.lookup name with
    | none => exact hsame.goesOn hcore trivial none rfl rfl
    | some task =>
      exact hsame.waits hcore trivial (.joining task next) rfl (fun _ hp => hp) rfl rfl
  | abort name =>
    rw [operate]
    split
    · exact hsame.goesOn hcore trivial () rfl rfl
    · exact hsame.goesOn hcore trivial () (bus_abort _ _) (core_abort _ _)
  | newCrew =>
    exact hsame.goesOn hcore trivial _ rfl rfl
  | hire crew name job =>
    exact (Grown.startTask w _ _ job).goesOn hcore trivial () rfl rfl
  | crewNames crew => exact hsame.goesOn hcore trivial _ rfl rfl
  | awaitCrew crew grace =>
    exact hsame.waits hcore trivial (.crew crew (s.now + grace.ceilMillis) next) rfl
      (fun _ hp => hp) rfl rfl
  | flags m => exact hsame.goesOn hcore trivial _ rfl rfl
  | markRunning m b =>
    exact hsame.goesOn hcore trivial () rfl rfl
  | markHealthy m b =>
    exact hsame.goesOn hcore trivial () rfl rfl
  | stored name => exact hsame.goesOn hcore trivial _ rfl rfl
  | keep name e =>
    exact hsame.goesOn hcore trivial () rfl rfl
  | forget name =>
    exact hsame.goesOn hcore trivial _ rfl rfl
  | record r =>
    exact (Grown.of_eq rfl rfl).stepped hcore (.running (next ())) rfl rfl Step.records
  | awaitTermination request =>
    show s.Stepped w t (s.awaitTermination t request next)
    rcases awaitTermination_cases s t request next with
      ⟨-, hgoes⟩ | ⟨handled, -, ⟨g, error, -, hgoes⟩ | ⟨-, hwaits⟩⟩
    · rw [hgoes]
      exact hsame.goesOn hcore trivial _ rfl rfl
    · rw [hgoes]
      exact hsame.goesOn hcore trivial _ rfl rfl
    · rw [hwaits]
      exact hsame.waits hcore trivial (.termination request none next) rfl (fun _ hp => hp) rfl rfl
  | exit status complaint =>
    exact hsame.waits hcore trivial .forever rfl (fun _ hp => hp.elim) rfl rfl
  | app effect =>
    exact hsame.goesOn hcore trivial _ rfl rfl

/-- **Every step of the machine is a step of the task** whose turn it is. -/
theorem advance_stepped (h : s.advance w t = some s') : s.Stepped w t s' := by
  unfold advance at h
  cases hk : s.tasks[t]? with
  | none =>
    rw [hk] at h
    cases h
  | some k =>
    rw [hk] at h
    dsimp only at h
    cases hstatus : k.status with
    | ended e =>
      rw [hstatus] at h
      cases h
    | running p =>
      rw [hstatus] at h
      obtain rfl := Option.some.inj h
      cases p with
      | perform op next => exact operate_stepped hk hstatus
      | done o =>
        have hdoing : k.status.doing = .running (.done o) := by
          rw [hstatus]
          rfl
        have hended : k.status.doing ≠ .ended := fun heq => nomatch hdoing.symm.trans heq
        cases hframes : k.frames with
        | nil => exact finish_stepped .finished hk hended
        | cons f rest =>
          have hinner : k.frames = [] ++ f :: rest := hframes
          refine leave_stepped o hk hinner hended fun _ _ _ _ heq => ?_
          cases hdoing.symm.trans heq
    | waiting wait stamp =>
      have hdoing : k.status.doing = .waiting wait.bare := by
        rw [hstatus]
        rfl
      have hended : k.status.doing ≠ .ended := fun heq => nomatch hdoing.symm.trans heq
      rw [hstatus] at h
      dsimp only at h
      split at h
      · obtain rfl := Option.some.inj h
        exact finish_stepped .aborted hk hended
      · cases hproceed : s.proceed t wait with
        | some s₁ =>
          rw [hproceed] at h
          obtain rfl := Option.some.inj h
          exact proceed_stepped hk hstatus hproceed
        | none =>
          rw [hproceed] at h
          dsimp only at h
          split at h
          · next f limit rest hexpired =>
            obtain rfl := Option.some.inj h
            obtain ⟨inner, hframes⟩ := expired_split hexpired
            refine leave_stepped _ hk hframes hended fun b e copy next heq => ?_
            -- A task that is alone with the listeners always goes on.
            rw [hdoing] at heq
            cases wait <;> cases heq
            cases hproceed
          · cases h

end State

end Orchestra.Machine
