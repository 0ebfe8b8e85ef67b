import Orchestra.Proofs.Tokens
import Orchestra.Proofs.Tracing

/-!
# Tasks that keep to a sort of operations

A task whose program, and the programs of its callers, ask only for operations of a sort keeps to that sort, provided
that whoever it may call keeps to it too.  So what no task of a process is there for never happens to it.

* `Doing.Keeps`, `Core.Keeps` — whatever a task will ask for, on top of some calls, is of a sort;
* `World.Confines` — so is whatever is asked for by those that it may call;
* `Step.keeps` — a step keeps it so, unless one of the calls below is left;
* `State.started_of_advance`, `Execution.started` — a new task does the job for which somebody has started it;
* `Effect.uncancelled` — no token is cancelled if nobody cancels one;
* `State.IsUntold`, `State.advance_answered`, `State.advance_awaited` — what a task goes on with that is told of no
  signal;
* `Op.IsSwift`, `Program.IsSwift` — a body that never waits comes to its end, whatever the limit of the call.
-/

namespace Orchestra

open Machine

variable {A : Application} {α : Type} {w : World A} {P : Op A → Prop}

/-! ### Keeping to a sort -/

/-- Whoever is called with an operation of the sort keeps to it. -/
def World.Confines (w : World A) (P : Op A → Prop) : Prop :=
  ∀ callee limit, P (.call callee limit) → (w.body callee).Only P

namespace Machine

/-- The change for which somebody waits. -/
def Wait.change? : Wait A → Option (Op A)
  | editing b e _ | replacing b e _ _ => some (.edit b e)
  | _ => none

/-- Whatever a task will ask for before it leaves the call, and the change for which it waits, is of a sort. -/
def Doing.Keeps (P : Op A → Prop) : Doing A → Prop
  | running p => p.Only P
  | waiting wait => (∀ op, wait.change? = some op → P op) ∧ ∀ p, wait.MayGoOn p → p.Only P
  | ended => True

/-- So is whatever it will ask for on top of some calls. -/
structure Core.Keeps (P : Op A → Prop) (outer : Calls A) (k : Core A) : Prop where
  doing : k.doing.Keeps P
  calls : ∃ inner, k.calls = inner ++ outer ∧ ∀ f ∈ inner, ∀ o, (f.2 o).Only P

section Keeps

variable {doing doing' : Doing A} {outer calls : Calls A} {passes : List Pass} {k k' : Core A} {t : TaskId}
  {g g' : Buses} {op : Op A}

theorem Doing.Keeps.mono {Q : Op A → Prop} (hPQ : ∀ op, P op → Q op) (h : doing.Keeps P) : doing.Keeps Q := by
  cases doing with
  | running p => exact Program.Only.mono hPQ h
  | waiting wait => exact ⟨fun op hop => hPQ op (h.1 op hop), fun p hp => (h.2 p hp).mono hPQ⟩
  | ended => trivial

theorem Core.Keeps.mono {Q : Op A → Prop} (hPQ : ∀ op, P op → Q op) (h : k.Keeps P outer) : k.Keeps Q outer := by
  obtain ⟨inner, hcalls, hinner⟩ := h.calls
  exact ⟨h.doing.mono hPQ, inner, hcalls, fun f hf o => (hinner f hf o).mono hPQ⟩

/-- A program of the sort, on top of nothing. -/
theorem Core.keeps_of_only {p : Program A Outcome} (h : p.Only P) : Core.Keeps P outer ⟨.running p, outer, passes⟩ :=
  ⟨h, [], rfl, nofun⟩

theorem Core.keeps_ended : Core.Keeps P [] (⟨.ended, [], []⟩ : Core A) := ⟨trivial, [], rfl, nofun⟩

/-- Whatever a task goes on with is of the sort. -/
theorem Doing.Keeps.only {p : Program A Outcome} (h : doing.Keeps P) (hp : doing.MayGoOn p) : p.Only P := by
  cases doing with
  | running q =>
    cases q with
    | done o => exact hp.elim
    | perform op next =>
      obtain ⟨x, rfl⟩ := hp
      exact h.2 x
  | waiting wait => exact h.2 p hp
  | ended => exact hp.elim

/-- A task that waits for no bus keeps to the sort if what it may go on with does. -/
theorem Doing.keeps_of_mayRun (hclaim : doing'.claim? t = none) (h : ∀ p, doing'.MayRun p → p.Only P) :
    doing'.Keeps P := by
  cases doing' with
  | running p => exact h p rfl
  | waiting wait =>
    refine ⟨fun op hop => ?_, h⟩
    cases wait with
    | editing b e next => cases hclaim
    | replacing b e copy next => cases hclaim
    | _ => cases hop
  | ended => trivial

/-- **A step keeps to the sort**, unless the task ends or leaves one of the calls below. -/
theorem Step.keeps (hw : w.Confines P) (hstep : Step w t g k g' k') (h : k.Keeps P outer) :
    k'.Keeps P outer ∨ k' = ⟨.ended, [], []⟩ ∨
      ∃ before f after o, outer = before ++ f :: after ∧ k'.doing = .running (f.2 o) ∧ k'.calls = after := by
  obtain ⟨hdoing, hcalls⟩ := h
  cases hstep with
  | goes _ _ hclaim' _ _ hnext =>
    exact .inl ⟨Doing.keeps_of_mayRun hclaim' fun p hp => hdoing.only (hnext p hp), hcalls⟩
  | records => exact .inl ⟨hdoing.2 _, hcalls⟩
  | looks => exact .inl ⟨hdoing.2 _, hcalls⟩
  | wantsToBegin => exact .inl ⟨⟨nofun, fun p hp => hp.elim fun set heq => heq ▸ hdoing.2 set⟩, hcalls⟩
  | wantsToRead => exact .inl ⟨⟨nofun, fun p hp => hp.elim fun set heq => heq ▸ hdoing.2 set⟩, hcalls⟩
  | wantsToEdit =>
    refine .inl ⟨⟨fun op hop => ?_, fun p hp => hp.elim fun b heq => heq ▸ hdoing.2 b⟩, hcalls⟩
    obtain rfl := Option.some.inj hop
    exact hdoing.1
  | begins => exact .inl ⟨hdoing.2 _ ⟨_, rfl⟩, hcalls⟩
  | reads => exact .inl ⟨hdoing.2 _ ⟨_, rfl⟩, hcalls⟩
  | copies => exact .inl ⟨⟨hdoing.1, hdoing.2⟩, hcalls⟩
  | replaces => exact .inl ⟨hdoing.2 _ ⟨_, rfl⟩, hcalls⟩
  | ends => exact .inl ⟨hdoing.2 _, hcalls⟩
  | endsNothing => exact .inl ⟨hdoing.2 _, hcalls⟩
  | finishes => exact .inr (.inl rfl)
  | @enters callee limit next calls passes =>
    obtain ⟨inner, hinner, honly⟩ := hcalls
    refine .inl ⟨hw callee limit hdoing.1, (passes.length, next) :: inner, congrArg _ hinner, fun f hf o => ?_⟩
    rcases List.mem_cons.1 hf with rfl | hf
    · exact hdoing.2 o
    · exact honly f hf o
  | @leaves doing depth caller _ rest passes o =>
    obtain ⟨inner, hinner, honly⟩ := hcalls
    rcases List.append_eq_append_iff.1 hinner with ⟨between, rfl, houter⟩ | ⟨between, rfl, houter⟩
    · cases between with
      | nil => exact .inr (.inr ⟨[], (depth, caller), rest, o, houter.symm, rfl, rfl⟩)
      | cons f between =>
        obtain ⟨rfl, rfl⟩ := List.cons.inj houter
        refine .inl ⟨honly (depth, caller) (by simp) o, between, rfl, fun f hf => honly f ?_⟩
        exact List.mem_append_right _ (List.mem_cons_of_mem _ hf)
    · exact .inr (.inr ⟨between, (depth, caller), rest, o, houter, rfl, rfl⟩)

/-- A task that nobody has called keeps to the sort until it has ended. -/
theorem Step.keeps_nil (hw : w.Confines P) (hstep : Step w t g k g' k') (h : k.Keeps P []) : k'.Keeps P [] := by
  rcases hstep.keeps hw h with hkeeps | rfl | ⟨before, f, after, o, houter, -⟩
  · exact hkeeps
  · exact Core.keeps_ended
  · exact absurd houter.symm (List.append_ne_nil_of_right_ne_nil _ (List.cons_ne_nil _ _))

/-- With a step a task ends or leaves a call, or it is inside of as many calls as before. -/
theorem Step.cut_cases (hstep : Step w t g k g' k') :
    (k'.doing ≠ .ended ∧ k.calls.length ≤ k'.calls.length) ∨ k' = ⟨.ended, [], []⟩ ∨
      ∃ before f after o, k.calls = before ++ f :: after ∧ k'.doing = .running (f.2 o) ∧ k'.calls = after := by
  cases hstep with
  | goes _ _ _ hended => exact .inl ⟨hended, Nat.le_refl _⟩
  | enters => exact .inl ⟨nofun, Nat.le_succ _⟩
  | finishes => exact .inr (.inl rfl)
  | @leaves doing depth caller inner rest passes o =>
    exact .inr (.inr ⟨inner, (depth, caller), rest, o, rfl, rfl, rfl⟩)
  | _ => exact .inl ⟨nofun, Nat.le_refl _⟩

/-- What a task is about to do is of the sort. -/
theorem Core.Keeps.about {s : State A} (h : ∃ k, s.core t = some k ∧ k.Keeps P outer) (habout : s.IsAboutTo t op) :
    P op := by
  obtain ⟨k, hk, hkeeps⟩ := h
  obtain ⟨next, calls, passes, hcore⟩ := habout
  obtain rfl := Option.some.inj (hk.symm.trans hcore)
  exact hkeeps.doing.1

end Keeps

/-! ### New tasks -/

namespace State

variable {s s' : State A} {t u : TaskId} {op : Op A} {next : op.Answer → Program A Outcome} {k : Core A}
  {calls : Calls A} {passes : List Pass}

theorem core_eq_none_iff : s.core u = none ↔ s.posts.length ≤ u := by
  rw [core, Option.map_eq_none_iff, List.getElem?_eq_none_iff, posts, List.length_map]

/-- The task that is started next does its job, whatever the one does that has started it. -/
theorem core_startTask {s₁ : State A} (role : Role) {p q : Program A Outcome} (ht : s₁.core t ≠ none) :
    ((s₁.startTask role p).1.resume t q).core s₁.tasks.length = some ⟨.running p, [], []⟩ := by
  have hne : s₁.tasks.length ≠ t := by
    rintro rfl
    exact ht (core_eq_none_iff.2 (Nat.le_of_eq (List.length_map _)))
  rw [resume, setStatus, core_onTask_of_ne hne, core, startTask, List.getElem?_append_right (Nat.le_refl _),
    Nat.sub_self]
  rfl

/-- Whoever is hired does the job. -/
theorem core_hired {crew : CrewId} {name : String} {job : A.Job} (h : s.advance w t = some s')
    (habout : s.IsAboutTo t (.hire crew name job)) :
    s'.core s.tasks.length = some ⟨.running (w.job job), [], []⟩ := by
  obtain ⟨next, calls, passes, hcore⟩ := habout
  obtain rfl := Option.some.inj ((advance_running hcore).symm.trans h)
  have hcrew : (s.onCrew crew fun c => (c.enrol name).1).core t ≠ none := by
    rw [show (s.onCrew crew fun c => (c.enrol name).1).core t = s.core t from rfl, hcore]
    exact Option.some_ne_none _
  exact core_startTask _ hcrew

/-- **A new task does the job for which it has been started.** -/
theorem started_of_advance (h : s.advance w t = some s') (hnone : s.core u = none) (hk : s'.core u = some k) :
    u = s.tasks.length ∧ ∃ name job, (s.IsAboutTo t (.spawn name job) ∨ ∃ crew, s.IsAboutTo t (.hire crew name job)) ∧
      k = ⟨.running (w.job job), [], []⟩ := by
  have hold : s.posts.length ≤ u := core_eq_none_iff.1 hnone
  have hnew : u < s'.posts.length := by
    by_contra hge
    cases hk.symm.trans (core_eq_none_iff.2 (Nat.le_of_not_lt hge))
  have hposts : s.posts.length = s.tasks.length := List.length_map _
  have hgrows : ∀ post, s'.posts = s.posts ++ [post] → u = s.tasks.length := fun post heq => by
    rw [heq, List.length_append] at hnew
    exact (Nat.le_antisymm (Nat.le_of_lt_succ hnew) hold).trans hposts
  have hsame : s'.posts.length ≠ s.posts.length := fun heq => absurd (heq ▸ hnew) (Nat.not_lt_of_le hold)
  cases advance_effect h with
  | spares hspares => exact absurd (congrArg List.length hspares.posts) hsame
  | makesToken _ _ _ _ heq => exact absurd (congrArg List.length heq) hsame
  | cancels _ _ _ _ heq => exact absurd (congrArg List.length heq) hsame
  | makesCrew _ _ _ heq => exact absurd (congrArg List.length heq) hsame
  | closesCrew _ _ _ _ _ heq => exact absurd (congrArg List.length heq) hsame
  | ends hends => exact absurd (by rw [hends.posts, List.length_set]) hsame
  | spawns name job habout _ _ heq =>
    obtain rfl := hgrows _ heq
    obtain ⟨next, calls, passes, hcore⟩ := habout
    refine ⟨rfl, name, job, .inl ⟨next, calls, passes, hcore⟩, ?_⟩
    obtain rfl := Option.some.inj (h.symm.trans (advance_running hcore))
    exact Option.some.inj (hk.symm.trans (core_startTask .task (hcore ▸ Option.some_ne_none _)))
  | hires crew name job habout _ _ heq =>
    obtain rfl := hgrows _ heq
    exact ⟨rfl, name, job, .inr ⟨crew, habout⟩, Option.some.inj (hk.symm.trans (core_hired h habout))⟩

end State

/-- A task that is new has been started by the task whose turn it was. -/
theorem Execution.started {x : Execution w} (hx : x.IsProper) {n : Nat} {u : TaskId} {k : Core A}
    (hnone : (x.state n).core u = none) (hk : (x.state (n + 1)).core u = some k) :
    ∃ t name job, x.turn n = some t ∧ u = (x.state n).tasks.length ∧
      ((x.state n).IsAboutTo t (.spawn name job) ∨ ∃ crew, (x.state n).IsAboutTo t (.hire crew name job)) ∧
      k = ⟨.running (w.job job), [], []⟩ := by
  cases hturn : x.turn n with
  | some t =>
    obtain ⟨hu, name, job, habout, rfl⟩ := State.started_of_advance (advance_of_turn hturn) hnone hk
    exact ⟨t, name, job, rfl, hu, habout, rfl⟩
  | none =>
    have hlength : (x.state (n + 1)).posts.length = (x.state n).posts.length := by
      rcases hx n hturn with haside | ⟨t, hends⟩
      · rw [haside.posts]
      · rw [hends.posts, List.length_set]
    rw [State.core_eq_none_iff, ← hlength, ← State.core_eq_none_iff] at hnone
    cases hnone.symm.trans hk

/-! ### Tokens that nobody cancels -/

namespace State

variable {s s' : State A} {t : TaskId}

/-- **No token is cancelled with a step that does not cancel one**, not even a new one. -/
theorem Effect.uncancelled (h : s.Effect t s') (hnone : ∀ token, ¬ s.IsAboutTo t (.cancel token))
    (hs : ∀ token, s.isCancelled token = false) (token : TokenId) : s'.isCancelled token = false := by
  cases h with
  | makesToken parent _ htokens =>
    have hparent : (parent.map fun p => s.isCancelled p).getD false = false := by cases parent <;> simp [hs]
    rcases Nat.lt_trichotomy token s.tokens.length with hlt | rfl | hgt
    · exact (isCancelled_of_isPrefix (htokens ▸ List.prefix_append _ _) hlt).trans (hs token)
    · rw [isCancelled, htokens, List.getElem?_concat_length, Option.map_some, Option.getD_some, hparent]
    · rw [isCancelled, htokens, List.getElem?_eq_none (by rw [List.length_append]; exact hgt)]
      rfl
  | cancels other habout => exact absurd habout (hnone other)
  | spares h => exact (isCancelled_congr h.tokens token).trans (hs token)
  | makesCrew _ h => exact (isCancelled_congr h token).trans (hs token)
  | closesCrew _ _ _ h => exact (isCancelled_congr h token).trans (hs token)
  | spawns _ _ _ h => exact (isCancelled_congr h token).trans (hs token)
  | hires _ _ _ _ h => exact (isCancelled_congr h token).trans (hs token)
  | ends h => exact (isCancelled_congr h.tokens token).trans (hs token)

end State

/-! ### Waiting for termination without a signal -/

/-- Whether somebody waits for termination and has been told of a signal. -/
def Status.isTold : Status A → Bool
  | .waiting (.termination _ (some _) _) _ => true
  | _ => false

namespace State

variable {s s' : State A} {t : TaskId}

/-- Nobody who waits for termination has been told of a signal. -/
def IsUntold (s : State A) : Prop := ∀ k ∈ s.tasks, k.status.isTold = false

section Termination

variable {request : TokenId} {next : Termination → Program A Outcome} {calls : Calls A} {passes : List Pass}
  {k : Core A} (hadvance : s.advance w t = some s') (hk : s'.core t = some k)
include hadvance hk

/-- A wait for termination begins, unless it is over at once, since there is a request or since the process cannot
be told of some signal. -/
theorem advance_awaitTermination
    (h : s.core t = some ⟨.running (.perform (.awaitTermination request) next), calls, passes⟩) :
    k = ⟨.waiting (.termination request none next), calls, passes⟩ ∨
      ∃ cause, (∀ g, cause ≠ .signal g) ∧ s.Tells (.awaitTermination request) cause ∧
        k = ⟨.running (next cause), calls, passes⟩ := by
  have hset : ∀ (handled : List Signal) (status : Status A),
      s' = { s with handled := handled }.setStatus t status → k = ⟨status.doing, calls, passes⟩ := by
    intro handled status heq
    have hsame : { s with handled := handled }.core t = s.core t := rfl
    rw [heq, core_setStatus (hsame.trans h)] at hk
    exact (Option.some.inj hk).symm
  have hs' : s' = s.awaitTermination t request next := Option.some.inj (hadvance.symm.trans (advance_running h))
  rcases awaitTermination_cases s t request next with
    ⟨hrequested, heq⟩ | ⟨handled, -, ⟨g, error, hrefused, heq⟩ | ⟨-, heq⟩⟩
  · exact .inr ⟨.requested, fun g => by simp, tells_requested hrequested,
      hset s.handled (.running (next .requested)) (hs'.trans heq)⟩
  · exact .inr ⟨.unavailable error, fun g => by simp, tells_unavailable hrefused,
      hset handled (.running (next (.unavailable error))) (hs'.trans heq)⟩
  · exact .inl (hset handled (.waiting (.termination request none next) none) (hs'.trans heq))

/-- Without a signal the wait is over only by the request. -/
theorem advance_untold (huntold : s.IsUntold) (hended : k.doing ≠ .ended) (hdepth : calls.length ≤ k.calls.length)
    (h : s.core t = some ⟨.waiting (.termination request none next), calls, passes⟩) :
    s.isCancelled request = true ∧ k = ⟨.running (next .requested), calls, passes⟩ := by
  obtain ⟨wait, hbare, hproceed, task, htask, stamp, hstatus⟩ := proceed_of_advance hadvance hk hended hdepth h
  cases wait with
  | termination request' signal next' =>
    cases hbare
    cases signal with
    | some g =>
      have htold := huntold task htask
      rw [hstatus] at htold
      cases htold
    | none =>
      obtain ⟨hcancelled, hresumes⟩ := Option.ite_none_right_eq_some.1 hproceed
      rw [← Option.some.inj hresumes, resume, core_setStatus h] at hk
      exact ⟨hcancelled, (Option.some.inj hk).symm⟩
  | _ => cases hbare

end Termination

/-! ### What a task goes on with that is told of no signal -/

/-- An answer, but no signal, with which a task goes on; if it has asked for a change, that takes effect now. -/
def GoesOn (s : State A) (op : Op A) (next : op.Answer → Program A Outcome) (calls : Calls A) (doing : Doing A)
    (k : Core A) : Prop :=
  ∃ a passes, s.Tells op a ∧ (∀ request g, (⟨op, a⟩ : Exchange A) ≠ ⟨.awaitTermination request, .signal g⟩) ∧
    (∀ b e, op = .edit b e → doing.edits b k.doing = some e) ∧ k = ⟨.running (next a), calls, passes⟩

/-- It waits for the answer. -/
def IsWaiting (op : Op A) (next : op.Answer → Program A Outcome) (calls : Calls A) (k : Core A) : Prop :=
  ∃ wait passes, op.WaitsIn next wait ∧ k = ⟨.waiting wait, calls, passes⟩

section Answered

variable {op : Op A} {next : op.Answer → Program A Outcome} {calls : Calls A} {passes : List Pass} {k : Core A}
  (hadvance : s.advance w t = some s') (hk : s'.core t = some k) (hended : k.doing ≠ .ended)
  (hdepth : calls.length ≤ k.calls.length)
include hadvance hk hended hdepth

/-- **A task that asks for something waits for the answer, or goes on with it**, unless it calls somebody. -/
theorem advance_answered (hcall : ∀ callee limit, op ≠ .call callee limit)
    (h : s.core t = some ⟨.running (.perform op next), calls, passes⟩) :
    IsWaiting op next calls k ∨ s.GoesOn op next calls (.running (.perform op next)) k := by
  have hasked := advance_asked hadvance hk hended hdepth h
  cases op with
  | call callee limit => exact absurd rfl (hcall callee limit)
  | awaitTermination request =>
    rcases advance_awaitTermination hadvance hk h with hwaits | ⟨cause, hcause, htells, hrunning⟩
    · exact .inl ⟨_, _, rfl, hwaits⟩
    · refine .inr ⟨cause, passes, htells, fun request' g heq => ?_, fun b e heq => ?_, hrunning⟩
      · cases heq
        exact hcause g rfl
      · cases heq
  | edit b e =>
    obtain ⟨_, _, hc, hc', hstep⟩ := (advance_stepped hadvance).own
    obtain rfl := Option.some.inj (hk.symm.trans hc')
    obtain rfl := Option.some.inj (h.symm.trans hc)
    exact .inl ⟨_, _, .inl rfl, Step.of_edit hended hdepth hstep⟩
  | _ =>
    rcases hasked with (⟨wait, passes', hwait, hwaits⟩ | hcalled) | ⟨a, passes', htells, hrunning⟩
    · exact .inl ⟨wait, passes', hwait, hwaits⟩
    · exact hcalled.elim
    · refine .inr ⟨a, passes', htells, fun request g heq => ?_, fun b e heq => ?_, hrunning⟩ <;> cases heq

/-- **A task that waits for an answer goes on with it, or waits for it still.** -/
theorem advance_awaited (huntold : s.IsUntold) {wait : Wait A} (hwait : op.WaitsIn next wait)
    (h : s.core t = some ⟨.waiting wait, calls, passes⟩) :
    IsWaiting op next calls k ∨ s.GoesOn op next calls (.waiting wait) k := by
  have hpending := advance_pending hadvance hk hended hdepth ⟨_, h, .inl ⟨wait, passes, hwait, rfl⟩⟩
  cases op with
  | call callee limit => exact hwait.elim
  | awaitTermination request =>
    obtain rfl := hwait
    obtain ⟨hcancelled, hrunning⟩ := advance_untold hadvance hk huntold hended hdepth h
    refine .inr ⟨.requested, passes, tells_requested hcancelled, fun request' g heq => ?_, fun b e heq => ?_, hrunning⟩
      <;> cases heq
  | edit b e =>
    obtain ⟨_, _, hc, hc', hstep⟩ := (advance_stepped hadvance).own
    obtain rfl := Option.some.inj (hk.symm.trans hc')
    obtain rfl := Option.some.inj (h.symm.trans hc)
    obtain rfl | ⟨copy, rfl⟩ := hwait
    · obtain ⟨copy, hcopy⟩ := Step.of_editing hended hdepth hstep
      exact .inl ⟨_, passes, .inr ⟨copy, rfl⟩, hcopy⟩
    · have hrunning := Step.of_replacing hended hdepth hstep
      refine .inr ⟨_, passes, trivial, fun request g heq => ?_, fun b' e' heq => ?_, hrunning⟩
      · cases heq
      · obtain ⟨rfl, rfl⟩ := Op.edit.inj heq
        rw [hrunning]
        exact if_pos rfl
  | _ =>
    rcases hpending with (⟨wait', passes', hwait', hwaits⟩ | hcalled) | ⟨a, passes', htells, hrunning⟩
    · exact .inl ⟨wait', passes', hwait', hwaits⟩
    · exact hcalled.elim
    · refine .inr ⟨a, passes', htells, fun request g heq => ?_, fun b e heq => ?_, hrunning⟩ <;> cases heq

end Answered

end State

end Machine

/-! ### Bodies that never wait -/

/-- An operation that is answered at once, whatever the state, and has nothing to do with calls. -/
def Op.IsSwift : Op A → Prop
  | .record _ | .hire .. | .markRunning .. => True
  | _ => False

/-- A body that asks for nothing else, and does not fail. -/
def Program.IsSwift : Program A Outcome → Prop
  | done o => o = .ok ()
  | perform op next => op.IsSwift ∧ ∀ x, (next x).IsSwift

namespace Machine.State

variable {s s' : State A} {t : TaskId} {calls : Calls A} {passes : List Pass}

/-- It goes on, step by step, -/
theorem advance_swift {op : Op A} {next : op.Answer → Program A Outcome} (hadvance : s.advance w t = some s')
    (h : s.core t = some ⟨.running (.perform op next), calls, passes⟩) (hop : op.IsSwift) :
    ∃ x, s'.core t = some ⟨.running (next x), calls, passes⟩ := by
  obtain rfl := Option.some.inj ((advance_running h).symm.trans hadvance)
  cases op with
  | record r => exact ⟨(), core_setStatus (s := s.log r) h _⟩
  | markRunning m running => exact ⟨(), core_setStatus (s := s.onFlags m _) h _⟩
  | hire crew name job =>
    have hgrown := Grown.startTask w (s.onCrew crew fun c => (c.enrol name).1)
      (.worker crew (((s.crews[crew]?).map CrewState.next).getD 0) name) job
    exact ⟨(), core_setStatus (hgrown.core_of h) _⟩
  | _ => exact hop.elim

/-- and at its end its caller goes on with what it has come to. -/
theorem advance_done {o : Outcome} {depth : Nat} {caller : Outcome → Program A Outcome}
    (hadvance : s.advance w t = some s') (h : s.core t = some ⟨.running (.done o), (depth, caller) :: calls, passes⟩) :
    ∃ passes', s'.core t = some ⟨.running (caller o), calls, passes'⟩ := by
  obtain ⟨task, htask, hcore⟩ := Option.map_eq_some_iff.1 h
  have hdoing : task.status.doing = .running (.done o) := congrArg Core.doing hcore
  have hcalls : task.frames.map (fun f => (f.depth, f.caller)) = (depth, caller) :: calls := congrArg Core.calls hcore
  cases hframes : task.frames with
  | nil => rw [hframes] at hcalls; cases hcalls
  | cons f rest =>
    rw [hframes] at hcalls
    obtain ⟨hhead, rfl⟩ := List.cons.inj hcalls
    obtain rfl : f.caller = caller := congrArg Prod.snd hhead
    cases hstatus : task.status with
    | running p =>
      rw [hstatus] at hdoing
      obtain rfl : p = .done o := Doing.running.inj hdoing
      have hs' : s.advance w t = some (s.leave t f rest o) := by
        rw [advance, htask]
        dsimp only
        rw [hstatus, hframes]
        rfl
      rw [← Option.some.inj (hs'.symm.trans hadvance)]
      exact ⟨_, leave_core o htask⟩
    | waiting wait stamp => rw [hstatus] at hdoing; cases hdoing
    | ended e => rw [hstatus] at hdoing; cases hdoing

end Machine.State

end Orchestra
