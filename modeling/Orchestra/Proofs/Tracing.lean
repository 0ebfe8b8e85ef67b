import Orchestra.Proofs.Following
import Orchestra.Proofs.Run

/-!
# What a task has been through

A program that a task runs asks for one operation after another, and goes on with the answers.  So every
run of a program by a task that is not cut off is a run by itself, and each of its exchanges has its place
among the steps of the execution.

* `Program.Leads`, `Program.Asks` — what is left of a program after some exchanges, and what it asks for;
* `Op.WaitsIn`, `Op.Pends` — what a task waits for that has asked for an operation;
* `State.Tells` — what an answer says about the state in which it is given;
* `State.advance_asked`, `State.advance_pending` — what becomes of it with the task's next step;
* `Execution.Answers` — a task asks for an operation with one step and is answered with another one;
* `Execution.Through` — exchanges one after another;
* `Execution.Amid`, `Execution.Returns` — a task is on its way through a program, or has come to its end;
* `Execution.followed` — one of the two is the case as long as the task is not cut off;
* `Execution.returns_of` — how a task is seen to have come to the end of its program.
-/

namespace Orchestra

variable {A : Application} {α β : Type}

/-! ### What is left of a program -/

namespace Program

/-- Through the given exchanges a program comes to what is left of it. -/
inductive Leads : Program A α → List (Exchange A) → Program A α → Prop where
  | start (p : Program A α) : Leads p [] p
  | perform {op : Op A} {next : op.Answer → Program A α} (x : op.Answer) {tr : List (Exchange A)}
      {q : Program A α} : Leads (next x) tr q → Leads (.perform op next) (⟨op, x⟩ :: tr) q

variable {p q : Program A α} {tr : List (Exchange A)}

/-- A program of which nothing is left has come to its end. -/
theorem Leads.run {a : α} (h : Leads p tr (.done a)) : Run p tr a := by
  generalize hq : Program.done a = q at h
  induction h with
  | start => subst hq; exact .done a
  | perform x _ ih => exact .perform x (ih hq)

/-- One more answer. -/
theorem Leads.snoc {op : Op A} {next : op.Answer → Program A α} (h : Leads p tr (.perform op next))
    (x : op.Answer) : Leads p (tr ++ [⟨op, x⟩]) (next x) := by
  generalize hq : Program.perform op next = q at h
  induction h with
  | start => subst hq; exact .perform x (.start _)
  | perform y _ ih => exact .perform y (ih hq)

/-- What is left of a program comes to what the program comes to. -/
theorem Leads.run_append {tr' : List (Exchange A)} {a : α} (h : Leads p tr q) (hrun : Run q tr' a) :
    Run p (tr ++ tr') a := by
  induction h with
  | start => exact hrun
  | perform x _ ih => exact .perform x (ih hrun)

theorem Leads.only {P : Op A → Prop} (h : Leads p tr q) (hp : p.Only P) : q.Only P := by
  induction h with
  | start => exact hp
  | perform x _ ih => exact ih (hp.2 x)

/-- After the given exchanges a program asks for an operation. -/
def Asks (p : Program A α) (tr : List (Exchange A)) (op : Op A) : Prop :=
  ∃ rest, p.Leads tr (.perform op rest)

theorem Asks.of_only {P : Op A → Prop} {op : Op A} (h : p.Asks tr op) (hp : p.Only P) : P op := by
  obtain ⟨rest, hleads⟩ := h
  exact (hleads.only hp).1

/-- Of two programs in sequence the first asks for something, or it has come to its end. -/
theorem asks_bind {f : α → Program A β} {op : Op A} (h : (p >>= f).Asks tr op) :
    p.Asks tr op ∨ ∃ first a later, tr = first ++ later ∧ Run p first a ∧ (f a).Asks later op := by
  induction p generalizing tr with
  | done a => exact .inr ⟨[], a, tr, rfl, .done a, h⟩
  | perform op' next ih =>
    obtain ⟨rest, hleads⟩ := h
    cases hleads with
    | start => exact .inl ⟨next, .start _⟩
    | perform x hleads =>
      rcases ih x ⟨rest, hleads⟩ with ⟨rest', hleads'⟩ | ⟨first, a, later, rfl, hrun, hlater⟩
      · exact .inl ⟨rest', .perform x hleads'⟩
      · exact .inr ⟨⟨op', x⟩ :: first, a, later, rfl, .perform x hrun, hlater⟩

end Program

/-! ### Operations that take their time -/

open Machine

/-- What a task waits for that has asked for an operation. -/
def Op.WaitsIn : (op : Op A) → (op.Answer → Program A Outcome) → Wait A → Prop
  | .beginDelivery b, next, wait => wait = .beginning b next
  | .listeners b, next, wait => wait = .reading b next
  | .edit b e, next, wait => wait = .editing b e next ∨ ∃ copy, wait = .replacing b e copy next
  | .sleep _, next, wait => ∃ due, wait = .sleeping due (next ())
  | .awaitCancel token, next, wait => wait = .cancelled token (next ())
  | .awaitCancelFor token _, next, wait => ∃ due, wait = .cancelledBy token due next
  | .join _, next, wait => ∃ task, wait = .joining task next
  | .awaitCrew crew _, next, wait => ∃ due, wait = .crew crew due next
  | .awaitTermination request, next, wait => wait = .termination request none next
  | .hang, _, wait | .exit .., _, wait => wait = .forever
  | _, _, _ => False

/-- What somebody has asked for who waits, as far as the wait tells. -/
def Machine.Wait.asked? : Wait A → Option (Op A)
  | beginning b _ => some (.beginDelivery b)
  | reading b _ => some (.listeners b)
  | editing b e _ | replacing b e _ _ => some (.edit b e)
  | cancelled token _ => some (.awaitCancel token)
  | termination request _ _ => some (.awaitTermination request)
  | _ => none

section

variable {op : Op A} {next : op.Answer → Program A Outcome}

/-- Whoever waits has asked for what the wait is for. -/
theorem Op.WaitsIn.eq_asked {op' : Op A} {wait : Wait A} (h : op.WaitsIn next wait)
    (hasked : wait.asked? = some op') : op = op' := by
  cases op with
  | beginDelivery _ | listeners _ | awaitCancel _ | awaitTermination _ =>
    obtain rfl := h
    exact Option.some.inj hasked
  | hang | exit _ _ =>
    obtain rfl := h
    cases hasked
  | edit b e =>
    rcases h with rfl | ⟨copy, rfl⟩ <;> exact Option.some.inj hasked
  | sleep _ | awaitCancelFor _ _ | join _ | awaitCrew _ _ =>
    obtain ⟨_, rfl⟩ := h
    cases hasked
  | _ => exact h.elim

end

/-- A task is inside a call that it has asked for. -/
def Op.CalledIn : (op : Op A) → (op.Answer → Program A Outcome) → Calls A → Core A → Prop
  | .call .., next, calls, k => ∃ passes, Inside next calls passes k
  | _, _, _, _ => False

/-- Whoever is inside a call is inside of more calls than before. -/
theorem Op.CalledIn.lt {op : Op A} {next : op.Answer → Program A Outcome} {calls : Calls A} {k : Core A}
    (h : op.CalledIn next calls k) : calls.length < k.calls.length := by
  cases op with
  | call callee limit =>
    obtain ⟨passes, hinside⟩ := h
    obtain ⟨inner, hcalls, -⟩ := hinside.calls
    rw [hcalls, List.length_append, List.length_cons]
    omega
  | _ => exact h.elim

/-- A task has asked for an operation and has not been answered: it waits, or is inside the call. -/
def Op.Pends (op : Op A) (next : op.Answer → Program A Outcome) (calls : Calls A) (k : Core A) : Prop :=
  (∃ wait passes, op.WaitsIn next wait ∧ k = ⟨.waiting wait, calls, passes⟩) ∨ op.CalledIn next calls k

/-- A task is about to ask for an operation, or waits for the answer. -/
def Machine.Doing.Serves (op : Op A) : Doing A → Prop
  | running (.perform op' _) => op' = op
  | waiting wait => ∃ next, op.WaitsIn next wait
  | _ => False

/-- Whether a task is about to ask for an operation of a sort, from within so many calls. -/
def Machine.Core.asks (f : Op A → Bool) (d : Nat) (k : Core A) : Bool :=
  match k.doing with
  | .running (.perform op _) => f op && k.calls.length == d
  | _ => false

namespace Machine.State

/-- The names of a crew's workers, as they are told to whoever asks for them. -/
def workers (crew : CrewId) (s : State A) : List String := ((s.crews[crew]?).map CrewState.names).getD []

/-- What an answer says about the state in which it is given. -/
def Tells (s : State A) : (op : Op A) → op.Answer → Prop
  | .newToken _, token => token = s.tokens.length
  | .crewNames crew, names => names = s.workers crew
  | .awaitCrew crew _, emptied => emptied = ((s.crews[crew]?).map CrewState.isDone).getD true
  | .awaitCancel token, _ => s.isCancelled token = true
  | .awaitCancelFor token _, cancelled => cancelled = s.isCancelled token
  | .awaitTermination request, cause => (cause = .requested → s.isCancelled request = true) ∧
      ∀ error, cause = .unavailable error → ∃ g, s.refused.lookup g = some error
  | _, _ => True

variable {w : World A} {s s' : State A} {t : TaskId} {op : Op A} {next : op.Answer → Program A Outcome}
  {k : Core A} {calls : Calls A} {passes : List Pass}

section

variable {request : TokenId}

theorem tells_requested (h : s.isCancelled request = true) : s.Tells (.awaitTermination request) .requested := by
  refine ⟨fun _ => h, fun error heq => ?_⟩
  cases heq

theorem tells_signal (g : Signal) : s.Tells (.awaitTermination request) (.signal g) := by
  refine ⟨fun heq => ?_, fun error heq => ?_⟩
  · cases heq
  · cases heq

theorem tells_unavailable {g : Signal} {error : String} (h : s.refused.lookup g = some error) :
    s.Tells (.awaitTermination request) (.unavailable error) := by
  refine ⟨fun heq => ?_, fun error' heq => ?_⟩
  · cases heq
  · cases heq
    exact ⟨g, h⟩

end

/-- A running task performs its operation. -/
theorem advance_running (h : s.core t = some ⟨.running (.perform op next), calls, passes⟩) :
    s.advance w t = some (s.operate w t op next) := by
  obtain ⟨k, hk, hcore⟩ := Option.map_eq_some_iff.1 h
  have hstatus : k.status.doing = .running (.perform op next) := congrArg Core.doing hcore
  rw [advance, hk]
  dsimp only
  cases hdoing : k.status with
  | running p =>
    rw [hdoing] at hstatus
    obtain rfl : p = .perform op next := Doing.running.inj hstatus
    rfl
  | waiting wait stamp => rw [hdoing] at hstatus; cases hstatus
  | ended e => rw [hdoing] at hstatus; cases hstatus

/-- Whoever waits can take a step once the wait is over. -/
theorem ready_of_proceed {wait : Wait A} (h : s.core t = some ⟨.waiting wait, calls, passes⟩)
    (hover : ∀ wait', wait'.bare = wait → (s.proceed t wait').isSome) : (s.advance w t).isSome := by
  obtain ⟨k, wait', stamp, hk, hstatus, hbare⟩ := waits_of_core h
  obtain ⟨s', hproceed⟩ := Option.isSome_iff_exists.1 (hover wait' hbare)
  rw [advance, hk]
  dsimp only
  rw [hstatus]
  dsimp only
  rw [hproceed]
  split <;> rfl

section Next

variable (hadvance : s.advance w t = some s') (hk' : s'.core t = some k) (hended : k.doing ≠ .ended)
  (hdepth : calls.length ≤ k.calls.length)
include hadvance hk' hended hdepth

/-- **A task that asks for an operation goes on with an answer, or waits for it.** -/
theorem advance_asked (h : s.core t = some ⟨.running (.perform op next), calls, passes⟩) :
    op.Pends next calls k ∨
      ∃ answer passes', s.Tells op answer ∧ k = ⟨.running (next answer), calls, passes'⟩ := by
  obtain ⟨c, c', hc, hc', hstep⟩ := (advance_stepped hadvance).own
  obtain rfl := Option.some.inj (h.symm.trans hc)
  obtain rfl := Option.some.inj (hk'.symm.trans hc')
  generalize s.bus = g, s'.bus = g' at hstep
  have hs' : s' = s.operate w t op next :=
    Option.some.inj (hadvance.symm.trans (advance_running h))
  -- What has to do with calls and buses is known already; otherwise the status of the task is set.
  have hset : ∀ (s₁ : State A) (status : Status A), s₁.core t = s.core t →
      s'.core t = (s₁.setStatus t status).core t → k = ⟨status.doing, calls, passes⟩ := by
    intro s₁ status hs₁ heq
    rw [heq, core_setStatus (hs₁.trans h)] at hk'
    exact (Option.some.inj hk').symm
  subst hs'
  cases op with
  | call callee limit =>
    obtain rfl := Step.of_call hended hdepth hstep
    exact .inl (.inr ⟨passes, ⟨[], rfl, fun f hf => (nomatch hf)⟩, [], rfl⟩)
  | panic payload =>
    cases hstep with
    | goes _ _ _ _ hop => exact (hop _ _ rfl).elim
    | leaves => exact absurd hdepth not_shorter
    | finishes => exact absurd rfl hended
  | enclosing b => exact .inr ⟨_, _, trivial, Step.of_enclosing hended hdepth hstep⟩
  | beginDelivery b => exact .inl (.inl ⟨_, _, rfl, Step.of_beginDelivery hended hdepth hstep⟩)
  | listeners b => exact .inl (.inl ⟨_, _, rfl, Step.of_listeners hended hdepth hstep⟩)
  | edit b e => exact .inl (.inl ⟨_, _, .inl rfl, Step.of_edit hended hdepth hstep⟩)
  | record r => exact .inr ⟨_, _, trivial, Step.of_record hended hdepth hstep⟩
  | endDelivery =>
    cases hstep with
    | goes _ _ _ _ hop => exact (hop _ _ rfl).elim
    | ends => exact .inr ⟨(), _, trivial, rfl⟩
    | endsNothing => exact .inr ⟨(), _, trivial, rfl⟩
    | leaves => exact absurd hdepth not_shorter
    | finishes => exact absurd rfl hended
  | sleep millis => exact .inl (.inl ⟨_, _, ⟨_, rfl⟩, hset s _ rfl rfl⟩)
  | hang => exact .inl (.inl ⟨_, _, rfl, hset s _ rfl rfl⟩)
  | awaitCancel token => exact .inl (.inl ⟨_, _, rfl, hset s _ rfl rfl⟩)
  | awaitCancelFor token millis => exact .inl (.inl ⟨_, _, ⟨_, rfl⟩, hset s _ rfl rfl⟩)
  | awaitTermination request =>
    rw [operate] at hset
    obtain ⟨hrequested, heq⟩ | ⟨handled, -, ⟨g, error, hrefused, heq⟩ | ⟨-, heq⟩⟩ :=
      awaitTermination_cases s t request next
    · exact .inr ⟨.requested, _, tells_requested hrequested,
        hset s (.running (next .requested)) rfl (by rw [heq]; rfl)⟩
    · exact .inr ⟨.unavailable error, _, tells_unavailable hrefused,
        hset { s with handled := handled } (.running (next (.unavailable error))) rfl (by rw [heq]; rfl)⟩
    · exact .inl (.inl ⟨_, _, rfl, hset { s with handled := handled }
        (.waiting (.termination request none next) none) rfl (by rw [heq]; rfl)⟩)
  | exit number complaint =>
    exact .inl (.inl ⟨_, _, rfl,
      hset { s with exited := some (.status number complaint) } _ rfl rfl⟩)
  | awaitCrew crew grace =>
    exact .inl (.inl ⟨_, _, ⟨_, rfl⟩,
      hset (s.onCrew crew fun c => { c with closed := true, emptied := false }) _ rfl rfl⟩)
  | join name =>
    rw [operate] at hset
    cases hhandle : s.handles.lookup name with
    | none =>
      rw [hhandle] at hset
      exact .inr ⟨none, _, trivial, hset s (.running (next none)) rfl rfl⟩
    | some task =>
      rw [hhandle] at hset
      exact .inl (.inl ⟨_, _, ⟨task, rfl⟩, hset { s with
        handles := s.handles.filter fun e => e.1 ≠ name } (.waiting (.joining task next) none) rfl rfl⟩)
  | cancel token =>
    exact .inr ⟨(), _, trivial, hset s _ rfl (congrFun (core_eq (cancel_tasks _ token)) t)⟩
  | abort name =>
    refine .inr ⟨(), passes, trivial, hset s (.running (next ())) rfl ?_⟩
    rw [operate]
    split
    · rfl
    · exact congrFun (core_abort _ _) t
  | spawn name job =>
    refine .inr ⟨(), _, trivial, hset (s.startTask .task (w.job job)).1 (.running (next ())) ?_ rfl⟩
    exact ((Grown.startTask w s .task job).core_of h).trans h.symm
  | hire crew name job =>
    have hgrown := Grown.startTask w (s.onCrew crew fun c => (c.enrol name).1)
      (.worker crew (((s.crews[crew]?).map CrewState.next).getD 0) name) job
    exact .inr ⟨(), _, trivial, hset _ (.running (next ())) ((hgrown.core_of h).trans h.symm) rfl⟩
  | newToken parent =>
    exact .inr ⟨_, _, rfl, hset (s.newToken parent).1 (.running (next (s.newToken parent).2)) rfl rfl⟩
  | newCrew =>
    exact .inr ⟨_, _, trivial, hset { s with crews := s.crews ++ [({} : CrewState)] }
      (.running (next s.crews.length)) rfl rfl⟩
  | keep name e => exact .inr ⟨(), _, trivial, hset { s with ensembles := put name e s.ensembles } _ rfl rfl⟩
  | forget name =>
    exact .inr ⟨_, _, trivial, hset { s with ensembles := s.ensembles.filter fun e => e.1 ≠ name }
      (.running (next (s.ensembles.lookup name).isSome)) rfl rfl⟩
  | app effect =>
    exact .inr ⟨_, _, trivial, hset { s with memory := (A.perform effect s.memory).2 }
      (.running (next (A.perform effect s.memory).1)) rfl rfl⟩
  | isCancelled token => exact .inr ⟨_, _, trivial, hset s (.running (next (s.isCancelled token))) rfl rfl⟩
  | crewNames crew => exact .inr ⟨_, _, rfl, hset s (.running (next _)) rfl rfl⟩
  | flags m => exact .inr ⟨_, _, trivial, hset s (.running (next (s.flagsOf m))) rfl rfl⟩
  | markRunning m b => exact .inr ⟨(), _, trivial, hset (s.onFlags m _) (.running (next ())) rfl rfl⟩
  | markHealthy m b => exact .inr ⟨(), _, trivial, hset (s.onFlags m _) (.running (next ())) rfl rfl⟩
  | stored name => exact .inr ⟨_, _, trivial, hset s (.running (next (s.ensembles.lookup name))) rfl rfl⟩

/-- The wait of a task that is not cut off is over, if it takes a step. -/
theorem proceed_of_advance {wait : Wait A} (h : s.core t = some ⟨.waiting wait, calls, passes⟩) :
    ∃ wait', wait'.bare = wait ∧ s.proceed t wait' = some s' ∧
      ∃ k ∈ s.tasks, ∃ stamp, k.status = .waiting wait' stamp := by
  obtain ⟨c, hc, hcore⟩ := Option.map_eq_some_iff.1 h
  have hdoing : c.status.doing = .waiting wait := congrArg Core.doing hcore
  have hcalls : (c.frames.map fun f => (f.depth, f.caller)) = calls := congrArg Core.calls hcore
  rw [advance, hc] at hadvance
  dsimp only at hadvance
  cases hstatus : c.status with
  | running p => rw [hstatus] at hdoing; cases hdoing
  | ended e => rw [hstatus] at hdoing; cases hdoing
  | waiting wait' stamp =>
    rw [hstatus] at hdoing hadvance
    dsimp only at hadvance
    split at hadvance
    · obtain rfl := Option.some.inj hadvance
      rw [finish_core .aborted hc] at hk'
      obtain rfl := Option.some.inj hk'
      exact absurd rfl hended
    · cases hproceed : s.proceed t wait' with
      | some s₁ =>
        rw [hproceed] at hadvance
        exact ⟨wait', Doing.waiting.inj hdoing, hproceed.trans hadvance, c, List.mem_of_getElem? hc, stamp, hstatus⟩
      | none =>
        rw [hproceed] at hadvance
        dsimp only at hadvance
        split at hadvance
        · next f limit rest hexpired =>
          -- Past its limit a call is left, and there are fewer calls than before.
          obtain rfl := Option.some.inj hadvance
          obtain ⟨inner, hframes⟩ := expired_split hexpired
          rw [leave_core _ hc] at hk'
          obtain rfl := Option.some.inj hk'
          rw [← hcalls, hframes] at hdepth
          simp at hdepth
          omega
        · cases hadvance

/-- A wait for termination that takes a step is over. -/
theorem advance_termination {request : TokenId} {next : Termination → Program A Outcome}
    (h : s.core t = some ⟨.waiting (.termination request none next), calls, passes⟩) :
    ∃ cause, s.Tells (.awaitTermination request) cause ∧ k = ⟨.running (next cause), calls, passes⟩ := by
  obtain ⟨wait, hbare, hproceed, -⟩ := proceed_of_advance hadvance hk' hended hdepth h
  have hset : ∀ p, s' = s.resume t p → k = ⟨.running p, calls, passes⟩ := by
    intro p heq
    rw [heq, resume, core_setStatus h] at hk'
    exact (Option.some.inj hk').symm
  cases wait with
  | termination request' signal next' =>
    cases hbare
    cases signal with
    | some g =>
      rw [proceed] at hproceed
      split at hproceed
      · next hfirst =>
        exact ⟨.requested, tells_requested (Bool.and_eq_true_iff.1 hfirst).2,
          hset _ (Option.some.inj hproceed).symm⟩
      · exact ⟨.signal g, tells_signal g, hset _ (Option.some.inj hproceed).symm⟩
    | none =>
      obtain ⟨hcancelled, hresumes⟩ := Option.ite_none_right_eq_some.1 hproceed
      exact ⟨.requested, tells_requested hcancelled, hset _ (Option.some.inj hresumes).symm⟩
  | _ => cases hbare

/-- **A task that waits for an answer goes on with it, or waits for it still.** -/
theorem advance_pending (hk : ∃ c, s.core t = some c ∧ op.Pends next calls c) :
    op.Pends next calls k ∨
      ∃ answer passes, s.Tells op answer ∧ k = ⟨.running (next answer), calls, passes⟩ := by
  obtain ⟨c, hc, hpends⟩ := hk
  obtain ⟨c₁, c', hc₁, hc', hstep⟩ := (advance_stepped hadvance).own
  obtain rfl := Option.some.inj (hc.symm.trans hc₁)
  obtain rfl := Option.some.inj (hk'.symm.trans hc')
  rcases hpends with ⟨wait, passes, hwait, rfl⟩ | hcalled
  · obtain ⟨wait', hbare, hproceed, -⟩ := proceed_of_advance hadvance hk' hended hdepth hc
    have hset : ∀ p, s' = s.resume t p → k = ⟨.running p, calls, passes⟩ := by
      intro p heq
      rw [heq, resume, core_setStatus hc] at hk'
      exact (Option.some.inj hk').symm
    cases op with
    | beginDelivery b =>
      obtain rfl := hwait
      obtain ⟨bs, -, -, hrunning⟩ := Step.of_beginning hended hdepth hstep
      exact .inr ⟨_, _, trivial, hrunning⟩
    | listeners b =>
      obtain rfl := hwait
      obtain ⟨bs, -, -, hrunning⟩ := Step.of_reading hended hdepth hstep
      exact .inr ⟨_, _, trivial, hrunning⟩
    | edit b e =>
      obtain rfl | ⟨copy, rfl⟩ := hwait
      · obtain ⟨copy, hcopy⟩ := Step.of_editing hended hdepth hstep
        exact .inl (.inl ⟨_, passes, .inr ⟨copy, rfl⟩, hcopy⟩)
      · exact .inr ⟨_, _, trivial, Step.of_replacing hended hdepth hstep⟩
    | sleep millis =>
      obtain ⟨due, rfl⟩ := hwait
      cases wait' <;> cases hbare
      rw [proceed] at hproceed
      split at hproceed
      · exact .inr ⟨(), _, trivial, hset _ (Option.some.inj hproceed).symm⟩
      · cases hproceed
    | awaitCancel token =>
      obtain rfl := hwait
      cases wait' <;> cases hbare
      obtain ⟨hcancelled, hresumes⟩ := Option.ite_none_right_eq_some.1 hproceed
      exact .inr ⟨(), _, hcancelled, hset _ (Option.some.inj hresumes).symm⟩
    | awaitCancelFor token millis =>
      obtain ⟨due, rfl⟩ := hwait
      cases wait' <;> cases hbare
      rw [proceed] at hproceed
      split at hproceed
      · next hcancelled => exact .inr ⟨true, _, hcancelled.symm, hset _ (Option.some.inj hproceed).symm⟩
      · next hopen =>
        obtain ⟨-, hresumes⟩ := Option.ite_none_right_eq_some.1 hproceed
        exact .inr ⟨false, _, (Bool.eq_false_iff.2 hopen).symm, hset _ (Option.some.inj hresumes).symm⟩
    | join name =>
      obtain ⟨task, rfl⟩ := hwait
      cases wait' <;> cases hbare
      rw [proceed] at hproceed
      split at hproceed
      · exact .inr ⟨_, _, trivial, hset _ (Option.some.inj hproceed).symm⟩
      · cases hproceed
    | awaitCrew crew grace =>
      obtain ⟨due, rfl⟩ := hwait
      cases wait' <;> cases hbare
      rw [proceed] at hproceed
      split at hproceed
      · next hdone => exact .inr ⟨true, _, hdone.symm, hset _ (Option.some.inj hproceed).symm⟩
      · next hbusy =>
        split at hproceed
        · exact .inr ⟨false, _, (Bool.eq_false_iff.2 hbusy).symm, hset _ (Option.some.inj hproceed).symm⟩
        · cases hproceed
    | awaitTermination request =>
      obtain rfl := hwait
      obtain ⟨cause, htells, hrunning⟩ := advance_termination hadvance hk' hended hdepth hc
      exact .inr ⟨cause, _, htells, hrunning⟩
    | hang =>
      obtain rfl := hwait
      cases wait' <;> cases hbare
      cases hproceed
    | exit status complaint =>
      obtain rfl := hwait
      cases wait' <;> cases hbare
      cases hproceed
    | _ => exact hwait.elim
  · cases op with
    | call callee limit =>
      obtain ⟨passes, hinside⟩ := hcalled
      rcases hstep.inside hinside hended hdepth with hinside' | ⟨o, hrunning⟩
      · exact .inl (.inr ⟨passes, hinside'⟩)
      · exact .inr ⟨o, passes, trivial, hrunning⟩
    | _ => exact hcalled.elim

end Next

end Machine.State

/-! ### The exchanges of a task -/

namespace Machine.Execution

variable {w : World A}

/-- What a task is about to ask for is done when it gets its turn. -/
theorem operates_of_turn {x : Execution w} {t : TaskId} {n : Nat} {op : Op A} {next : op.Answer → Program A Outcome}
    {calls : Calls A} {passes : List Pass} (hturn : x.turn n = some t)
    (hk : (x.state n).core t = some ⟨.running (.perform op next), calls, passes⟩) :
    x.state (n + 1) = (x.state n).operate w t op next := by
  have hadvance := advance_of_turn hturn
  rw [State.advance_running hk] at hadvance
  exact (Option.some.inj hadvance).symm

/-- With the step after `m` steps task `t` asks for an operation, from within `calls`, and it has not been
answered after `n` steps. -/
structure Awaits (x : Execution w) (t : TaskId) (calls : Calls A) (op : Op A)
    (next : op.Answer → Program A Outcome) (m n : Nat) : Prop where
  turn : x.turn m = some t
  before : ∃ passes, (x.state m).core t = some ⟨.running (.perform op next), calls, passes⟩
  pends : ∀ l, m < l → l ≤ n → ∃ k, (x.state l).core t = some k ∧ op.Pends next calls k

/-- With the step after `m` steps task `t` asks for an operation, from within `calls`, and with the step
after `n` steps it goes on with the answer. -/
structure Answers (x : Execution w) (t : TaskId) (calls : Calls A) (y : Exchange A) (m n : Nat) :
    Prop where
  le : m ≤ n
  turn : x.turn n = some t
  tells : (x.state n).Tells y.op y.answer
  asks : ∃ next, x.Awaits t calls y.op next m n ∧
    ∃ passes, (x.state (n + 1)).core t = some ⟨.running (next y.answer), calls, passes⟩

/-- From `i` to `j` task `t` asks for one operation after another and is answered. -/
inductive Through (x : Execution w) (t : TaskId) (calls : Calls A) :
    List (Exchange A) → Nat → Nat → Prop where
  | nil (i : Nat) : Through x t calls [] i i
  | cons {y : Exchange A} {tr : List (Exchange A)} {i m n j : Nat} : i ≤ m →
      x.Answers t calls y m n → Through x t calls tr (n + 1) j → Through x t calls (y :: tr) i j

/-- After `j` steps task `t` is on its way through a program that it began after `i` steps: it is about to
ask for an operation, or has asked for one. -/
inductive Amid (x : Execution w) (t : TaskId) (calls : Calls A) (p : Program A α)
    (next : α → Program A Outcome) (i j : Nat) : Prop where
  | idle {tr : List (Exchange A)} {op : Op A} {rest : op.Answer → Program A α} {m : Nat}
      {passes : List Pass} : p.Leads tr (.perform op rest) → x.Through t calls tr i m → m ≤ j →
      (x.state j).core t = some ⟨.running (.perform op fun a => rest a >>= next), calls, passes⟩ →
      Amid x t calls p next i j
  | busy {tr : List (Exchange A)} {op : Op A} {rest : op.Answer → Program A α} {m m' : Nat} :
      p.Leads tr (.perform op rest) → x.Through t calls tr i m → m ≤ m' → m' < j →
      x.Awaits t calls op (fun a => rest a >>= next) m' j → Amid x t calls p next i j

/-- After `n` steps task `t` has come to the end of a program that it began after `i` steps, through some
exchanges and with a result. -/
structure Returns (x : Execution w) (t : TaskId) (calls : Calls A) (p : Program A α)
    (next : α → Program A Outcome) (i n : Nat) (tr : List (Exchange A)) (a : α) : Prop where
  run : p.Run tr a
  through : x.Through t calls tr i n
  amid : ∀ m, i ≤ m → m < n → x.Amid t calls p next i m
  after : ∃ passes, (x.state n).core t = some ⟨.running (next a), calls, passes⟩

variable {x : Execution w} {t : TaskId} {calls : Calls A} {passes : List Pass} {y : Exchange A}
  {tr tr' : List (Exchange A)} {p : Program A α} {next : α → Program A Outcome} {i j m n : Nat}

theorem Through.le (h : x.Through t calls tr i j) : i ≤ j := by
  induction h with
  | nil => exact Nat.le_refl _
  | cons hi hy _ ih => exact Nat.le_trans hi (Nat.le_trans hy.le (Nat.le_trans (Nat.le_succ _) ih))

theorem Amid.le (h : x.Amid t calls p next i n) : i ≤ n := by
  cases h with
  | idle _ hthrough hm _ => exact Nat.le_trans hthrough.le hm
  | busy _ hthrough hm hm' _ => exact Nat.le_trans hthrough.le (Nat.le_trans hm (Nat.le_of_lt hm'))

theorem Through.snoc (h : x.Through t calls tr i j) (hj : j ≤ m) (hy : x.Answers t calls y m n) :
    x.Through t calls (tr ++ [y]) i (n + 1) := by
  induction h with
  | nil i => exact .cons hj hy (.nil _)
  | cons hi hy' _ ih => exact .cons hi hy' (ih hj)

theorem Through.append_inv (h : x.Through t calls (tr ++ tr') i j) :
    ∃ m, x.Through t calls tr i m ∧ x.Through t calls tr' m j := by
  induction tr generalizing i with
  | nil => exact ⟨i, .nil i, h⟩
  | cons y tr ih =>
    cases h with
    | cons hi hy hrest =>
      obtain ⟨m, hfirst, hlast⟩ := ih hrest
      exact ⟨m, .cons hi hy hfirst, hlast⟩

/-- Each exchange has its steps. -/
theorem Through.answers (h : x.Through t calls tr i j) (hy : y ∈ tr) :
    ∃ m n, i ≤ m ∧ n < j ∧ x.Answers t calls y m n := by
  induction h with
  | nil => cases hy
  | cons hi hy' hrest ih =>
    rcases List.mem_cons.1 hy with rfl | hmem
    · exact ⟨_, _, hi, hrest.le, hy'⟩
    · obtain ⟨m, n, hm, hn, hanswers⟩ := ih hmem
      have hle := hy'.le
      exact ⟨m, n, by omega, hn, hanswers⟩

/-- One more step of waiting. -/
theorem Awaits.later {op : Op A} {next : op.Answer → Program A Outcome} {k : Core A}
    (h : x.Awaits t calls op next m n) (hk : (x.state (n + 1)).core t = some k)
    (hpends : op.Pends next calls k) : x.Awaits t calls op next m (n + 1) := by
  refine ⟨h.turn, h.before, fun l hl hl' => ?_⟩
  rcases Nat.lt_or_eq_of_le hl' with hl' | rfl
  · exact h.pends l hl (Nat.le_of_lt_succ hl')
  · exact ⟨k, hk, hpends⟩

/-- A task that has asked for something waits for the answer, or goes on with it. -/
theorem Awaits.succ {op : Op A} {next : op.Answer → Program A Outcome} (h : x.Awaits t calls op next m n)
    (hmn : m ≤ n) (huncut : x.Uncut t calls.length n (n + 1)) :
    x.Awaits t calls op next m (n + 1) ∨
      ∃ answer, x.Answers t calls ⟨op, answer⟩ m n ∧
        ∃ passes, (x.state (n + 1)).core t = some ⟨.running (next answer), calls, passes⟩ := by
  obtain ⟨k', hk', hended', hdepth⟩ := huncut (n + 1) (Nat.le_succ n) (Nat.le_refl _)
  have hpends : op.Pends next calls k' → x.Awaits t calls op next m (n + 1) := h.later hk'
  by_cases hturn : x.turn n = some t
  · have hadvance := advance_of_turn hturn
    have hnext : op.Pends next calls k' ∨ ∃ answer passes,
        (x.state n).Tells op answer ∧ k' = ⟨.running (next answer), calls, passes⟩ := by
      rcases Nat.eq_or_lt_of_le hmn with rfl | hlt
      · obtain ⟨passes, hbefore⟩ := h.before
        exact State.advance_asked hadvance hk' hended' hdepth hbefore
      · exact State.advance_pending hadvance hk' hended' hdepth (h.pends n hlt (Nat.le_refl n))
    rcases hnext with hpending | ⟨answer, passes, htells, rfl⟩
    · exact .inl (hpends hpending)
    · exact .inr ⟨answer, ⟨hmn, hturn, htells, next, h, passes, hk'⟩, passes, hk'⟩
  · have hlt : m < n := Nat.lt_of_le_of_ne hmn fun heq => hturn (heq ▸ h.turn)
    obtain ⟨k, hk, hpending⟩ := h.pends n hlt (Nat.le_refl n)
    obtain ⟨c, hc, hended, -⟩ := huncut n (Nat.le_refl n) (Nat.le_succ n)
    obtain rfl := Option.some.inj (hk.symm.trans hc)
    obtain rfl := same_of_turn_ne hturn hk hended hk' hended'
    exact .inl (hpends hpending)

/-- Where a task stands with a program after an answer: it is on its way, or has come to the end. -/
theorem amid_or_end {q : Program A α} (hleads : p.Leads tr q) (hthrough : x.Through t calls tr i n)
    (hk : (x.state n).core t = some ⟨.running (q >>= next), calls, passes⟩) :
    x.Amid t calls p next i n ∨ ∃ a, p.Run tr a ∧
      (x.state n).core t = some ⟨.running (next a), calls, passes⟩ := by
  cases q with
  | perform op rest => exact .inl (.idle hleads hthrough (Nat.le_refl n) hk)
  | done a => exact .inr ⟨a, hleads.run, hk⟩

/-- One more step of a task on its way through a program. -/
theorem Amid.succ (h : x.Amid t calls p next i n) (huncut : x.Uncut t calls.length n (n + 1)) :
    x.Amid t calls p next i (n + 1) ∨ ∃ tr a, p.Run tr a ∧ x.Through t calls tr i (n + 1) ∧
      ∃ passes, (x.state (n + 1)).core t = some ⟨.running (next a), calls, passes⟩ := by
  have hanswered : ∀ {tr : List (Exchange A)} {op : Op A} {rest : op.Answer → Program A α} {m m' : Nat},
      p.Leads tr (.perform op rest) → x.Through t calls tr i m → m ≤ m' → m' ≤ n →
      x.Awaits t calls op (fun a => rest a >>= next) m' n →
      x.Amid t calls p next i (n + 1) ∨ ∃ tr a, p.Run tr a ∧ x.Through t calls tr i (n + 1) ∧
        ∃ passes, (x.state (n + 1)).core t = some ⟨.running (next a), calls, passes⟩ := by
    intro tr op rest m m' hleads hthrough hm hm' hasks
    rcases hasks.succ hm' huncut with hasks' | ⟨answer, hanswers, passes, hk⟩
    · exact .inl (.busy hleads hthrough hm (Nat.lt_succ_of_le hm') hasks')
    · have hthrough' := hthrough.snoc hm hanswers
      rcases amid_or_end (hleads.snoc answer) hthrough' hk with hamid | ⟨a, hrun, hafter⟩
      · exact .inl hamid
      · exact .inr ⟨_, a, hrun, hthrough', passes, hafter⟩
  cases h with
  | busy hleads hthrough hm hm' hasks =>
    exact hanswered hleads hthrough hm (Nat.le_of_lt hm') hasks
  | @idle tr op rest m passes hleads hthrough hm hk =>
    by_cases hturn : x.turn n = some t
    · exact hanswered hleads hthrough hm (Nat.le_refl n)
        ⟨hturn, ⟨passes, hk⟩, fun l hl hl' => absurd hl (Nat.not_lt_of_le hl')⟩
    · obtain ⟨k', hk', hended', -⟩ := huncut (n + 1) (Nat.le_succ n) (Nat.le_refl _)
      obtain rfl := same_of_turn_ne hturn hk nofun hk' hended'
      exact .inl (.idle hleads hthrough (Nat.le_succ_of_le hm) hk')

/-- **A task that is not cut off is on its way through its program, or has come to the end of it.** -/
theorem followed (huncut : x.Uncut t calls.length i j) (hij : i ≤ j)
    (hk : (x.state i).core t = some ⟨.running (p >>= next), calls, passes⟩) :
    (∀ m, i ≤ m → m ≤ j → x.Amid t calls p next i m) ∨
      ∃ n tr a, n ≤ j ∧ x.Returns t calls p next i n tr a := by
  induction hij with
  | refl =>
    rcases amid_or_end (.start p) (.nil i) hk with hamid | ⟨a, hrun, hafter⟩
    · refine .inl fun m hi hm => ?_
      obtain rfl := Nat.le_antisymm hm hi
      exact hamid
    · exact .inr ⟨i, [], a, Nat.le_refl i, hrun, .nil i, fun m hi hm => absurd hi (Nat.not_le_of_lt hm),
        passes, hafter⟩
  | @step j hij ih =>
    rcases ih (huncut.mono (Nat.le_refl i) (Nat.le_succ j)) with hamid | ⟨n, tr, a, hn, hreturns⟩
    · rcases (hamid j hij (Nat.le_refl j)).succ (huncut.tail hij) with hnext | ⟨tr, a, hrun, hthrough, hafter⟩
      · refine .inl fun m hi hm => ?_
        rcases Nat.lt_or_eq_of_le hm with hm | rfl
        · exact hamid m hi (Nat.le_of_lt_succ hm)
        · exact hnext
      · exact .inr ⟨j + 1, tr, a, Nat.le_refl _, hrun, hthrough,
          fun m hi hm => hamid m hi (Nat.le_of_lt_succ hm), hafter⟩
    · exact .inr ⟨n, tr, a, Nat.le_succ_of_le hn, hreturns⟩

/-! ### What a task does by itself -/

/-- Task `t` takes a step from within so many calls and no more. -/
def IsOwn (x : Execution w) (t : TaskId) (d n : Nat) : Prop :=
  x.turn n = some t ∧ ∃ k, (x.state n).core t = some k ∧ k.calls.length = d

/-- A task on its way through a program asks for an operation or waits for it, unless it is inside a
call. -/
theorem Amid.asks (h : x.Amid t calls p next i n) {k : Core A} (hk : (x.state n).core t = some k)
    (hlevel : k.calls.length = calls.length) : ∃ tr op m, p.Asks tr op ∧ x.Through t calls tr i m ∧
      m ≤ n ∧ k.doing.Serves op := by
  cases h with
  | @idle tr op rest m passes hleads hthrough hm hcore =>
    obtain rfl := Option.some.inj (hk.symm.trans hcore)
    exact ⟨tr, op, m, ⟨rest, hleads⟩, hthrough, hm, rfl⟩
  | @busy tr op rest m m' hleads hthrough hm hm' hawaits =>
    obtain ⟨c, hc, hpends⟩ := hawaits.pends n hm' (Nat.le_refl n)
    obtain rfl := Option.some.inj (hk.symm.trans hc)
    refine ⟨tr, op, m, ⟨rest, hleads⟩, hthrough, Nat.le_of_lt (Nat.lt_of_le_of_lt hm hm'), ?_⟩
    rcases hpends with ⟨wait, passes, hwait, rfl⟩ | hcalled
    · exact ⟨_, hwait⟩
    · exact absurd hlevel (Nat.ne_of_gt hcalled.lt)

/-- Whoever waits on its way through a program has asked for that. -/
theorem Amid.awaits (h : x.Amid t calls p next i n) {wait : Wait A}
    (hk : (x.state n).core t = some ⟨.waiting wait, calls, passes⟩) {op : Op A} (hop : wait.asked? = some op) :
    ∃ m rest, m < n ∧ x.Awaits t calls op rest m n := by
  cases h with
  | idle _ _ _ hcore => cases hk.symm.trans hcore
  | @busy tr op' rest m m' _ _ _ hm' hawaits =>
    obtain ⟨c, hc, ⟨wait', passes', hwait, rfl⟩ | hcalled⟩ := hawaits.pends n hm' (Nat.le_refl n)
    · cases hk.symm.trans hc
      obtain rfl := hwait.eq_asked hop
      exact ⟨m', _, hm', hawaits⟩
    · obtain rfl := Option.some.inj (hk.symm.trans hc)
      exact absurd hcalled.lt (Nat.lt_irrefl _)

/-- What it asks for is one of the operations of the program. -/
theorem Amid.serves {P : Op A → Prop} (h : x.Amid t calls p next i n) (hp : p.Only P) {k : Core A}
    (hk : (x.state n).core t = some k) (hlevel : k.calls.length = calls.length) :
    ∃ op, P op ∧ k.doing.Serves op := by
  obtain ⟨tr, op, m, hasks, -, -, hserves⟩ := h.asks hk hlevel
  exact ⟨op, hasks.of_only hp, hserves⟩

/-- An operation that is answered at once. -/
theorem Answers.at_once (h : x.Answers t calls y m n) (hwaits : ∀ next wait, ¬ y.op.WaitsIn next wait)
    (hcalled : ∀ next calls k, ¬ y.op.CalledIn next calls k) :
    m = n ∧ ∃ next passes, (x.state n).core t = some ⟨.running (.perform y.op next), calls, passes⟩ ∧
      x.state (n + 1) = (x.state n).operate w t y.op next ∧
      ∃ passes', (x.state (n + 1)).core t = some ⟨.running (next y.answer), calls, passes'⟩ := by
  obtain ⟨next, hasks, passes', hafter⟩ := h.asks
  obtain ⟨passes, hbefore⟩ := hasks.before
  obtain rfl : m = n := by
    rcases Nat.eq_or_lt_of_le h.le with heq | hlt
    · exact heq
    · obtain ⟨k, -, ⟨wait, passes', hwait, -⟩ | hinside⟩ := hasks.pends n hlt (Nat.le_refl n)
      · exact absurd hwait (hwaits _ _)
      · exact absurd hinside (hcalled _ _ _)
  exact ⟨rfl, next, passes, hbefore, operates_of_turn hasks.turn hbefore, passes', hafter⟩

/-- Whoever is answered a change to the listeners has made it. -/
theorem Answers.edit_eq {b : BusId} {e : Edit} {changed : Bool}
    (h : x.Answers t calls ⟨.edit b e, changed⟩ m n) : x.edit b n = some e := by
  obtain ⟨next, hasks, passes, hafter⟩ := h.asks
  have hended : (⟨.running (next changed), calls, passes⟩ : Core A).doing ≠ .ended := fun h => nomatch h
  have hdepth : calls.length ≤ (⟨.running (next changed), calls, passes⟩ : Core A).calls.length :=
    Nat.le_refl _
  rcases Nat.eq_or_lt_of_le h.le with rfl | hlt
  · obtain ⟨passes', hbefore⟩ := hasks.before
    cases Step.of_edit hended hdepth (step_of_turn h.turn hbefore hafter)
  · obtain ⟨k, hk, ⟨wait, passes', hwait, rfl⟩ | hcalled⟩ := hasks.pends n hlt (Nat.le_refl n)
    · rcases hwait with rfl | ⟨copy, rfl⟩
      · obtain ⟨copy, hcopy⟩ := Step.of_editing hended hdepth (step_of_turn h.turn hk hafter)
        cases hcopy
      · rw [edit_of_turn h.turn hk hafter]
        exact if_pos rfl
    · exact hcalled.elim

/-- Whoever changes listeners by itself, on its way through a program, asks for that change. -/
theorem Amid.edit {P : Op A → Prop} (h : x.Amid t calls p next i n) (hp : p.Only P)
    (hown : x.IsOwn t calls.length n) {b : BusId} {e : Edit} (hedit : x.edit b n = some e) :
    P (.edit b e) := by
  obtain ⟨hturn, k, hk, hlevel⟩ := hown
  obtain ⟨op, hop, hserves⟩ := h.serves hp hk hlevel
  obtain ⟨u, c, c', hu, hc, hc', hedits⟩ := edit_eq_some hedit
  obtain rfl := Option.some.inj (hu.symm.trans hturn)
  obtain rfl := Option.some.inj (hc.symm.trans hk)
  obtain ⟨copy, next', q, hdoing, -⟩ := Doing.edits_eq_some hedits
  rw [hdoing] at hserves
  obtain ⟨next'', hwait⟩ := hserves
  obtain rfl := hwait.eq_asked rfl
  exact hop

/-! ### Where a program has come to its end -/

/-- A program has come to its end where the task asks for the first time for an operation that the program
does not ask for, but the rest does. -/
theorem returns_of {f : Op A → Bool} {a : α} {passes' : List Pass} (hp : p.Only fun op => f op = false)
    (hnext : ∀ a, ∃ op rest, next a = .perform op rest ∧ f op = true)
    (huncut : x.Uncut t calls.length i n) (hin : i ≤ n)
    (hk : (x.state i).core t = some ⟨.running (p >>= next), calls, passes⟩)
    (hn : (x.state n).core t = some ⟨.running (next a), calls, passes'⟩)
    (hfirst : ∀ m, m < n → i ≤ m → ((x.state m).core t).any (Core.asks f calls.length) = false) :
    ∃ tr a', x.Returns t calls p next i n tr a' ∧ next a' = next a := by
  have hasks : ∀ {m : Nat} {a : α} {passes : List Pass},
      (x.state m).core t = some ⟨.running (next a), calls, passes⟩ →
      ((x.state m).core t).any (Core.asks f calls.length) = true := by
    intro m a passes hm
    obtain ⟨op, rest, hop, hf⟩ := hnext a
    rw [hm, hop, Option.any_some]
    show (f op && calls.length == calls.length) = true
    rw [hf]
    exact beq_self_eq_true _
  rcases followed huncut hin hk with hamid | ⟨n', tr, a', hn', hreturns⟩
  · obtain ⟨op, rest, hop, hf⟩ := hnext a
    rw [hop] at hn
    obtain ⟨op', hop', hserves⟩ := (hamid n hin (Nat.le_refl n)).serves hp hn rfl
    obtain rfl : op = op' := hserves
    rw [hf] at hop'
    cases hop'
  · obtain ⟨passes₁, hafter⟩ := hreturns.after
    rcases Nat.lt_or_eq_of_le hn' with hlt | rfl
    · have hnot := hfirst n' hlt hreturns.through.le
      rw [hasks hafter] at hnot
      cases hnot
    · refine ⟨tr, a', hreturns, ?_⟩
      have hsame := Option.some.inj (hafter.symm.trans hn)
      exact Doing.running.inj (congrArg Core.doing hsame)

end Machine.Execution

end Orchestra
