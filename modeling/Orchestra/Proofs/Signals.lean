import Orchestra.Proofs.Tokens
import Orchestra.Proofs.Tracing

/-!
# What ends a process

A process ends when somebody asks for that, or by a signal that it is not told of.  It is told of all signals
once somebody has begun to wait for termination, and then none of them ends it.

* `State.signals` — the signals that a process is told of, and how it has ended;
* `State.Hears`, `State.advance_hears` — what a step of a task makes of them;
* `State.Bears`, `Execution.MindsSignals` — what may become of them when it is nobody's turn;
* `State.run_mindsSignals`, `Execution.directed_mindsSignals` — so it is with the scheduler, and with given
  moves;
* `Execution.IsEnded`, `MindsSignals.isEnded` — what has ended a process;
* `Execution.Awaits.told` — whoever waits for termination has the process told of all signals.
-/

namespace Orchestra.Machine

variable {A : Application}

namespace State

variable {w : World A} {s s' s₁ : State A} {t : TaskId} {k : Task A}

/-! ### What makes no difference -/

/-- The signals that a process is told of, and how it has ended, if it has. -/
def signals (s : State A) : List Signal × Option Exit := (s.handled, s.exited)

section

variable (s : State A) (t : TaskId) (b : BusId)

theorem wake_signals : (s.wake t).signals = s.signals := by
  unfold wake
  split
  · split <;> rfl
  · rfl

theorem wakeAll_signals (ts : List TaskId) : (s.wakeAll ts).signals = s.signals := by
  induction ts generalizing s with
  | nil => rfl
  | cons t rest ih => exact (ih (s.wake t)).trans (wake_signals s t)

theorem onLock_signals (f : Lock → Lock × List TaskId) : (s.onLock b f).signals = s.signals := by
  unfold onLock
  split
  · rfl
  · exact wakeAll_signals _ _

theorem dropClaim_signals : (s.dropClaim t).signals = s.signals := by
  unfold dropClaim
  split
  · rfl
  · split
    · rfl
    · exact onLock_signals s _ _

theorem endPasses_signals (depth : Nat) : (s.endPasses t depth).signals = s.signals := by
  have hfold : ∀ (ps : List Pass) (s₁ : State A),
      (ps.foldl (fun s p => s.onLock p.bus fun l => l.release ⟨t, .read⟩) s₁).signals = s₁.signals := by
    intro ps
    induction ps with
    | nil => exact fun _ => rfl
    | cons p rest ih => exact fun s₁ => (ih _).trans (onLock_signals s₁ _ _)
  unfold endPasses
  split
  · rfl
  · exact hfold _ _

theorem leave_signals (f : Frame A) (rest : List (Frame A)) (o : Outcome) :
    (s.leave t f rest o).signals = s.signals :=
  (endPasses_signals _ t f.depth).trans (dropClaim_signals s t)

theorem discharge_signals (crew : CrewId) (number : Nat) (name : String) :
    (s.discharge crew number name).signals = s.signals := by
  unfold discharge
  dsimp only
  split
  · split
    · exact wakeAll_signals _ _
    · rfl
  · rfl

theorem finish_signals (e : Ending) : (s.finish t e).signals = s.signals := by
  unfold finish
  split
  · rfl
  · refine (wakeAll_signals _ _).trans ?_
    split
    · exact (discharge_signals _ _ _ _).trans ((endPasses_signals _ t 0).trans (dropClaim_signals s t))
    · exact (endPasses_signals _ t 0).trans (dropClaim_signals s t)

theorem panic_signals (payload : Payload) : (s.panic t payload).signals = s.signals := by
  unfold panic
  split
  · exact leave_signals s t _ _ _
  · exact finish_signals s t .panicked

theorem abort_signals : (s.abort t).signals = s.signals := by
  unfold abort
  split
  · rfl
  · rfl
  · exact wake_signals _ t

theorem endPass_signals : (s.endPass t).signals = s.signals := by
  unfold endPass
  split
  · rfl
  · dsimp only
    split
    · exact endPasses_signals s t _
    · rfl

theorem cancel_signals (token : TokenId) : (s.cancel token).signals = s.signals := by
  have hone : ∀ (s : State A) (token : TokenId), (s.cancelOne token).signals = s.signals := by
    intro s token
    unfold cancelOne
    split
    · rfl
    · exact wakeAll_signals _ _
  have hfold : ∀ (ks : List TokenId) (s : State A),
      (ks.foldl (fun s k => s.cancelOne k) s).signals = s.signals := by
    intro ks
    induction ks with
    | nil => exact fun _ => rfl
    | cons k rest ih => exact fun s => (ih _).trans (hone s k)
  unfold cancel
  split
  · rfl
  · exact (hone _ token).trans (hfold _ s)

theorem park_signals : (s.park t).signals = s.signals := by
  unfold park
  split
  · split <;> rfl
  · rfl

end

theorem begin_signals (t : TaskId) (s : State A) : (s.begin t).signals = s.signals := by
  unfold begin
  split
  · split
    · rfl
    · split
      · exact finish_signals s t .aborted
      · rfl
  · rfl

/-! ### What a step makes of signals -/

/-- What one step of task `t` does: nothing, unless the task has the process told of signals or ends it. -/
inductive Hears (t : TaskId) (s s' : State A) : Prop where
  | same : s'.signals = s.signals → Hears t s s'
  | told (request : TokenId) : s.IsAboutTo t (.awaitTermination request) →
      (∀ g ∈ s.handled, g ∈ s'.handled) → s'.exited = s.exited → Hears t s s'
  | exits (number : Nat) (complaint : String) : s.IsAboutTo t (.exit number complaint) →
      s'.handled = s.handled → s'.exited = some (.status number complaint) → Hears t s s'

theorem proceed_signals {wait : Wait A} (h : s.proceed t wait = some s') : s'.signals = s.signals := by
  cases wait with
  | beginning b next | reading b next | editing b e next =>
    obtain ⟨-, hp⟩ := Option.ite_none_left_eq_some.1 h
    obtain rfl := Option.some.inj hp
    first | rfl | exact onLock_signals _ _ _
  | replacing b e copy next =>
    obtain rfl := Option.some.inj h
    exact onLock_signals _ _ _
  | _ =>
    obtain ⟨p, -, rfl⟩ := resumes_of_proceed rfl h
    rfl

theorem operate_hears {op : Op A} {next : op.Answer → Program A Outcome} (habout : s.IsAboutTo t op) :
    s.Hears t (s.operate w t op next) := by
  cases op with
  | panic payload => exact .same (panic_signals s t payload)
  | beginDelivery b | listeners b | edit b e => exact .same (onLock_signals s b _)
  | endDelivery => exact .same (endPass_signals s t)
  | cancel token => exact .same (cancel_signals _ token)
  | join name =>
    rw [operate]
    split <;> exact .same rfl
  | abort name =>
    rw [operate]
    split
    · exact .same rfl
    · exact .same (abort_signals _ _)
  | awaitTermination request =>
    rw [operate]
    obtain ⟨-, heq⟩ | ⟨handled, hkept, ⟨g, error, -, heq⟩ | ⟨-, heq⟩⟩ := awaitTermination_cases s t request next
    · exact .same (heq ▸ rfl)
    · exact .told request habout (heq ▸ hkept) (heq ▸ rfl)
    · exact .told request habout (heq ▸ hkept) (heq ▸ rfl)
  | exit number complaint => exact .exits number complaint habout rfl rfl
  | _ => exact .same rfl

/-- **Only a wait for termination and an end of the process make a difference.** -/
theorem advance_hears (h : s.advance w t = some s') : s.Hears t s' := by
  unfold advance at h
  split at h
  · cases h
  · next k hk =>
    split at h
    · cases h
    · next p hstatus =>
      obtain rfl := Option.some.inj h
      cases p with
      | done o =>
        cases k.frames with
        | nil => exact .same (finish_signals s t .finished)
        | cons f rest => exact .same (leave_signals s t f rest o)
      | perform op next =>
        refine operate_hears ⟨next, k.core.calls, k.core.passes, ?_⟩
        rw [core_of_task hk, Task.core, hstatus]
        rfl
    · next wait stamp _ =>
      split at h
      · obtain rfl := Option.some.inj h
        exact .same (finish_signals s t .aborted)
      · split at h
        · next s₁ hproceed =>
          obtain rfl := Option.some.inj h
          exact .same (proceed_signals hproceed)
        · split at h
          · obtain rfl := Option.some.inj h
            exact .same (leave_signals s t _ _ _)
          · cases h

/-! ### What happens when it is nobody's turn -/

/-- A process stays told of the signals that it is told of, and no other than one of the rest ends it. -/
structure Bears (s s' : State A) : Prop where
  handled : ∀ g ∈ s.handled, g ∈ s'.handled
  exited : s'.exited = s.exited ∨ ∃ g, g ∉ s.handled ∧ s'.exited = some (.killed g)

theorem Bears.of_signals (h : s'.signals = s.signals) : s.Bears s' := by
  obtain ⟨hhandled, hexited⟩ := Prod.mk.inj h
  exact ⟨fun g hg => hhandled ▸ hg, .inl hexited⟩

theorem Bears.trans (h : s.Bears s₁) (h' : s₁.Bears s') : s.Bears s' := by
  refine ⟨fun g hg => h'.handled g (h.handled g hg), ?_⟩
  rcases h'.exited with hsame | ⟨g, hg, hkilled⟩
  · rw [hsame]
    exact h.exited
  · exact .inr ⟨g, fun hmem => hg (h.handled g hmem), hkilled⟩

theorem deliverSignal_bears (g : Signal) (s : State A) : s.Bears (s.deliverSignal g) := by
  unfold deliverSignal
  split
  · exact .of_signals (wakeAll_signals _ _)
  · next hg => exact ⟨fun _ h => h, .inr ⟨g, hg, rfl⟩⟩

theorem tick_bears (h : s.tick = some s') : s.Bears s' :=
  tick_steps Bears.trans (fun _ _ _ => .of_signals rfl) (fun s t => .of_signals (wake_signals s t))
    (fun s g => deliverSignal_bears g s) (fun s token => .of_signals (cancel_signals s token)) h

/-- **So it is with the scheduler.** -/
theorem run_mindsSignals (w : World A) (fuel : Nat) (current : Option TaskId) (s : State A) :
    Relation.ReflTransGen (fun s s' => s.Bears s' ∨ ∃ t, s.advance w t = some s') s
      (s.run w fuel current) :=
  run_steps (fun hadvance => .inr ⟨_, hadvance⟩) (fun t s => .inl (.of_signals (park_signals s t)))
    (fun _ _ => .inl (.of_signals rfl)) (fun t s => .inl (.of_signals (begin_signals t s)))
    (fun htick => .inl (tick_bears htick)) fuel current s

end State

/-! ### Executions -/

namespace Execution

variable {w : World A} {x : Execution w} {t : TaskId} {calls : Calls A} {i j m n : Nat}

/-- When it is nobody's turn, the process stays told of signals, and only those end it that it is not told of. -/
def MindsSignals (x : Execution w) : Prop :=
  ∀ n, x.turn n = none → (x.state n).Bears (x.state (n + 1))

theorem directed_mindsSignals {buses : Nat} {p : Program A Outcome} {memory : A.Memory} {moves : List Move} :
    (Execution.directed w buses p memory moves).MindsSignals := by
  intro n hturn
  cases n with
  | zero => exact .of_signals rfl
  | succ n =>
    exact State.move_aside (fun _ => .of_signals rfl) (fun t s => .of_signals (State.park_signals s t))
      State.tick_bears State.deliverSignal_bears hturn

/-- What a process is told of it stays told of. -/
theorem MindsSignals.handled_mono (hx : x.MindsSignals) (hij : i ≤ j) {g : Signal}
    (h : g ∈ (x.state i).handled) : g ∈ (x.state j).handled := by
  induction hij with
  | refl => exact h
  | @step n _ ih =>
    cases hturn : x.turn n with
    | none => exact (hx n hturn).handled g ih
    | some t =>
      cases State.advance_hears (advance_of_turn hturn) with
      | same hsame => exact (Prod.mk.inj hsame).1 ▸ ih
      | told request _ hkept _ => exact hkept g ih
      | exits number complaint _ hsame _ => exact hsame ▸ ih

/-- With the step after `n` steps a process comes to its end: a task asks for that, or a signal comes that the
process is not told of. -/
inductive IsEnded (x : Execution w) (n : Nat) : Exit → Prop where
  | asked {t : TaskId} {number : Nat} {complaint : String} : x.turn n = some t →
      (x.state n).IsAboutTo t (.exit number complaint) → IsEnded x n (.status number complaint)
  | killed {g : Signal} : x.turn n = none → g ∉ (x.state n).handled → IsEnded x n (.killed g)

/-- **What has ended a process** is one of its steps. -/
theorem MindsSignals.isEnded (hx : x.MindsSignals) (hij : i ≤ j) (hi : (x.state i).exited = none) {exit : Exit}
    (hj : (x.state j).exited = some exit) : ∃ n, i ≤ n ∧ n < j ∧ x.IsEnded n exit := by
  induction hij with
  | refl => cases hi.symm.trans hj
  | @step n hin ih =>
    -- Unless this step has ended the process, one before it has.
    have hbefore : (x.state (n + 1)).exited = (x.state n).exited → ∃ m, i ≤ m ∧ m < n + 1 ∧ x.IsEnded m exit := by
      intro hsame
      obtain ⟨m, him, hmn, hended⟩ := ih (hsame ▸ hj)
      exact ⟨m, him, Nat.lt_succ_of_lt hmn, hended⟩
    cases hturn : x.turn n with
    | none =>
      rcases (hx n hturn).exited with hsame | ⟨g, hg, hkilled⟩
      · exact hbefore hsame
      · obtain rfl := Option.some.inj (hj.symm.trans hkilled)
        exact ⟨n, hin, Nat.lt_succ_self n, .killed hturn hg⟩
    | some t =>
      cases State.advance_hears (advance_of_turn hturn) with
      | same hsame => exact hbefore (Prod.mk.inj hsame).2
      | told request _ _ hsame => exact hbefore hsame
      | exits number complaint habout _ hexits =>
        obtain rfl := Option.some.inj (hj.symm.trans hexits)
        exact ⟨n, hin, Nat.lt_succ_self n, .asked hturn habout⟩

/-- **Whoever waits for termination has the process told of all signals**, and it stays so. -/
theorem Awaits.told (hx : x.MindsSignals) {request : TokenId} {next : Termination → Program A Outcome}
    (h : x.Awaits t calls (.awaitTermination request) next m n) (hmn : m < n) (hnj : m < j) (g : Signal) :
    g ∈ (x.state j).handled := by
  obtain ⟨passes, hbefore⟩ := h.before
  obtain ⟨k, hk, ⟨wait, passes', hwait, rfl⟩ | hcalled⟩ := h.pends (m + 1) (Nat.lt_succ_self m) hmn
  · refine hx.handled_mono hnj ?_
    have hresumed : ∀ {s : State A} {p : Program A Outcome}, s.core t = (x.state m).core t →
        x.state (m + 1) ≠ s.resume t p := by
      intro s p hs heq
      rw [heq, State.resume, State.core_setStatus (hs.trans hbefore)] at hk
      cases hk
    have hoperated := operates_of_turn h.turn hbefore
    obtain ⟨-, heq⟩ | ⟨handled, -, ⟨_, error, -, heq⟩ | ⟨hall, heq⟩⟩ :=
      State.awaitTermination_cases (x.state m) t request next
    · exact absurd (hoperated.trans heq) (hresumed rfl)
    · exact absurd (hoperated.trans heq) (hresumed rfl)
    · rw [hoperated.trans heq]
      exact hall g
  · exact hcalled.elim

end Execution

end Orchestra.Machine
