import Orchestra.Proofs.Keeping

/-!
# Processes that are left in peace

Nothing comes from outside unless it has been set for some time, or a signal is sent.  So a process for which nothing
has been set, and to which no signal is sent, is left in peace for ever.

* `State.AtPeace` — nothing is to come from outside, and nobody has been told of a signal;
* `State.advance_atPeace` — the tasks' steps keep the peace;
* `State.tick_cases`, `State.move_atPeace` — so does the clock, and it touches no token;
* `Execution.directed_atPeace`, `Execution.directed_tokens` — so it is with given moves, none of which is a signal.
-/

namespace Orchestra.Machine

variable {A : Application} {w : World A}

namespace State

/-- Nothing is to come from outside, and nobody has been told of a signal. -/
structure AtPeace (s : State A) : Prop where
  alarms : s.alarms = []
  untold : s.IsUntold

variable {s s' : State A} {t : TaskId}

/-! ### What makes no difference -/

theorem AtPeace.of_tasks (h : s.AtPeace) (halarms : s'.alarms = s.alarms) (htasks : s'.tasks = s.tasks) : s'.AtPeace :=
  ⟨halarms.trans h.alarms, fun k hk => h.untold k (htasks ▸ hk)⟩

/-- Whatever changes about a task, unless it is told of a signal. -/
theorem AtPeace.onTask (h : s.AtPeace) {f : Task A → Task A}
    (hf : ∀ k, k.status.isTold = false → (f k).status.isTold = false) : (s.onTask t f).AtPeace := by
  refine ⟨h.alarms, fun k hk => ?_⟩
  obtain ⟨u, hu⟩ := List.mem_iff_getElem?.1 hk
  rw [State.onTask, List.getElem?_modify] at hu
  obtain ⟨k₀, hk₀, rfl⟩ := Option.map_eq_some_iff.1 hu
  have huntold := h.untold k₀ (List.mem_of_getElem? hk₀)
  split
  · exact hf k₀ huntold
  · exact huntold

theorem AtPeace.setStatus (h : s.AtPeace) {status : Status A} (hstatus : status.isTold = false) :
    (s.setStatus t status).AtPeace :=
  h.onTask fun _ _ => hstatus

theorem AtPeace.resume (h : s.AtPeace) (p : Program A Outcome) : (s.resume t p).AtPeace := h.setStatus rfl

theorem wake_alarms (s : State A) (t : TaskId) : (s.wake t).alarms = s.alarms := by
  unfold wake
  split
  · split <;> rfl
  · rfl

theorem wakeAll_alarms (ts : List TaskId) (s : State A) : (s.wakeAll ts).alarms = s.alarms := by
  induction ts generalizing s with
  | nil => rfl
  | cons t rest ih => exact (ih (s.wake t)).trans (wake_alarms s t)

theorem AtPeace.wake (h : s.AtPeace) (t : TaskId) : (s.wake t).AtPeace :=
  h.of_tasks (wake_alarms s t) (wake_tasks s t)

theorem AtPeace.wakeAll (h : s.AtPeace) (ts : List TaskId) : (s.wakeAll ts).AtPeace :=
  h.of_tasks (wakeAll_alarms ts s) (wakeAll_tasks s ts)

theorem AtPeace.onLock (h : s.AtPeace) (b : BusId) (f : Lock → Lock × List TaskId) : (s.onLock b f).AtPeace := by
  unfold State.onLock
  split
  · exact h
  · refine AtPeace.wakeAll (AtPeace.of_tasks h ?_ ?_) _ <;> rfl

theorem AtPeace.cancelOne (h : s.AtPeace) (token : TokenId) : (s.cancelOne token).AtPeace := by
  unfold State.cancelOne
  split
  · exact h
  · refine AtPeace.wakeAll (AtPeace.of_tasks h ?_ ?_) _ <;> rfl

theorem AtPeace.cancel (h : s.AtPeace) (token : TokenId) : (s.cancel token).AtPeace := by
  have hfold : ∀ (ks : List TokenId) {s : State A}, s.AtPeace → (ks.foldl (fun s k => s.cancelOne k) s).AtPeace := by
    intro ks
    induction ks with
    | nil => exact id
    | cons k rest ih => exact fun h => ih (h.cancelOne k)
  unfold State.cancel
  split
  · exact h
  · exact (hfold _ h).cancelOne token

theorem AtPeace.startTask (h : s.AtPeace) (role : Role) (p : Program A Outcome) : (s.startTask role p).1.AtPeace := by
  refine ⟨h.alarms, fun k hk => ?_⟩
  rcases List.mem_append.1 hk with hold | hnew
  · exact h.untold k hold
  · rw [List.mem_singleton.1 hnew]
    rfl

/-! ### Leaving calls, and ending -/

theorem AtPeace.dropClaim (h : s.AtPeace) (t : TaskId) : (s.dropClaim t).AtPeace := by
  unfold State.dropClaim
  split
  · exact h
  · split
    · exact h
    · exact h.onLock ..

theorem AtPeace.endPasses (h : s.AtPeace) (t : TaskId) (depth : Nat) : (s.endPasses t depth).AtPeace := by
  have hfold : ∀ (ps : List Pass) {s : State A}, s.AtPeace →
      (ps.foldl (fun s p => s.onLock p.bus fun l => l.release ⟨t, .read⟩) s).AtPeace := by
    intro ps
    induction ps with
    | nil => exact id
    | cons p rest ih => exact fun h => ih (h.onLock ..)
  unfold State.endPasses
  split
  · exact h
  · exact hfold _ (h.onTask fun _ hk => hk)

theorem AtPeace.leave (h : s.AtPeace) (t : TaskId) (f : Frame A) (rest : List (Frame A)) (o : Outcome) :
    (s.leave t f rest o).AtPeace :=
  ((h.dropClaim t).endPasses t f.depth).onTask fun _ _ => rfl

theorem AtPeace.discharge (h : s.AtPeace) (crew : CrewId) (number : Nat) (name : String) :
    (s.discharge crew number name).AtPeace := by
  have hgone : (((s.onCrew crew fun c => c.dismiss number).log ⟨.debug, Origin.workers, "worker finished",
      [.shown "worker" name]⟩).onCrew crew CrewState.uncount).AtPeace := h.of_tasks rfl rfl
  unfold State.discharge
  dsimp only
  split
  · split
    · exact hgone.wakeAll _
    · exact hgone
  · exact hgone

theorem AtPeace.finish (h : s.AtPeace) (t : TaskId) (e : Ending) : (s.finish t e).AtPeace := by
  have hended : (((s.dropClaim t).endPasses t 0).onTask t fun k =>
      { k with frames := [], status := .ended e }).AtPeace :=
    ((h.dropClaim t).endPasses t 0).onTask fun _ _ => rfl
  unfold State.finish
  split
  · exact h
  · dsimp only
    split
    · exact (hended.discharge ..).wakeAll _
    · exact hended.wakeAll _

theorem AtPeace.panic (h : s.AtPeace) (t : TaskId) (payload : Payload) : (s.panic t payload).AtPeace := by
  unfold State.panic
  split
  · exact h.leave ..
  · exact h.finish ..

theorem AtPeace.abort (h : s.AtPeace) (t : TaskId) : (s.abort t).AtPeace := by
  unfold State.abort
  split
  · exact h
  · exact h
  · refine AtPeace.wake (AtPeace.onTask h ?_) t
    exact fun _ hk => hk

theorem AtPeace.endPass (h : s.AtPeace) (t : TaskId) : (s.endPass t).AtPeace := by
  unfold State.endPass
  split
  · exact h
  · dsimp only
    split
    · exact h.endPasses ..
    · exact h

/-! ### Steps -/

theorem proceed_atPeace (h : s.AtPeace) {wait : Wait A} (hproceed : s.proceed t wait = some s') : s'.AtPeace := by
  cases wait with
  | beginning b next =>
    obtain ⟨-, hs'⟩ := Option.ite_none_left_eq_some.1 hproceed
    obtain rfl := Option.some.inj hs'
    refine AtPeace.resume (AtPeace.onTask h ?_) _
    exact fun _ hk => hk
  | reading b next =>
    obtain ⟨-, hs'⟩ := Option.ite_none_left_eq_some.1 hproceed
    obtain rfl := Option.some.inj hs'
    exact (h.resume _).onLock ..
  | editing b e next =>
    obtain ⟨-, hs'⟩ := Option.ite_none_left_eq_some.1 hproceed
    obtain rfl := Option.some.inj hs'
    exact h.setStatus rfl
  | replacing b e copy next =>
    obtain rfl := Option.some.inj hproceed
    have hset : (s.setListeners b (e.apply copy)).AtPeace := h.of_tasks rfl rfl
    exact (hset.resume _).onLock ..
  | _ =>
    obtain ⟨p, -, rfl⟩ := resumes_of_proceed rfl hproceed
    exact h.resume p

theorem operate_atPeace (h : s.AtPeace) (op : Op A) (next : op.Answer → Program A Outcome) :
    (s.operate w t op next).AtPeace := by
  cases op with
  | call callee limit =>
    refine AtPeace.onTask h ?_
    exact fun _ _ => rfl
  | panic payload => exact h.panic t payload
  | endDelivery => exact (h.endPass t).resume _
  | beginDelivery b | listeners b | edit b e =>
    refine AtPeace.setStatus (AtPeace.onLock h ..) ?_
    rfl
  | cancel token => exact (h.resume _).cancel token
  | spawn name job =>
    refine AtPeace.resume (AtPeace.of_tasks (h.startTask .task (w.job job)) ?_ ?_) _ <;> rfl
  | join name =>
    rw [operate]
    split
    · exact h.resume _
    · refine AtPeace.setStatus (AtPeace.of_tasks h ?_ ?_) ?_ <;> rfl
  | abort name =>
    rw [operate]
    split
    · exact h.resume _
    · exact (h.resume _).abort _
  | hire crew name job =>
    have hcrew : (s.onCrew crew fun c => (c.enrol name).1).AtPeace := h.of_tasks rfl rfl
    exact (hcrew.startTask ..).resume _
  | awaitTermination request =>
    rw [operate]
    obtain ⟨-, heq⟩ | ⟨handled, -, ⟨g, error, -, heq⟩ | ⟨-, heq⟩⟩ := awaitTermination_cases s t request next
    · rw [heq]
      exact h.resume _
    · rw [heq]
      refine AtPeace.setStatus (AtPeace.of_tasks h ?_ ?_) ?_ <;> rfl
    · rw [heq]
      refine AtPeace.setStatus (AtPeace.of_tasks h ?_ ?_) ?_ <;> rfl
  | _ => refine AtPeace.setStatus (AtPeace.of_tasks h ?_ ?_) ?_ <;> rfl

/-- **A step keeps the peace.** -/
theorem advance_atPeace (h : s.AtPeace) (hadvance : s.advance w t = some s') : s'.AtPeace := by
  unfold advance at hadvance
  split at hadvance
  · cases hadvance
  · next k hk =>
    split at hadvance
    · cases hadvance
    · next p _ =>
      obtain rfl := Option.some.inj hadvance
      cases p with
      | done o =>
        cases k.frames with
        | nil => exact h.finish t .finished
        | cons f rest => exact h.leave t f rest o
      | perform op next => exact operate_atPeace h op next
    · next wait stamp _ =>
      split at hadvance
      · obtain rfl := Option.some.inj hadvance
        exact h.finish t .aborted
      · split at hadvance
        · next s₁ hproceed =>
          obtain rfl := Option.some.inj hadvance
          exact proceed_atPeace h hproceed
        · split at hadvance
          · obtain rfl := Option.some.inj hadvance
            exact h.leave t _ _ _
          · cases hadvance

theorem park_atPeace (h : s.AtPeace) (t : TaskId) : (s.park t).AtPeace := by
  unfold park
  split
  · next k hk =>
    split
    · next wait hstatus =>
      refine ⟨h.alarms, fun k' hk' => ?_⟩
      rcases List.mem_or_eq_of_mem_set hk' with hold | rfl
      · exact h.untold k' hold
      · have huntold := h.untold k (List.mem_of_getElem? hk)
        rw [hstatus] at huntold
        cases wait with
        | termination request signal next =>
          cases signal with
          | none => rfl
          | some g => cases huntold
        | _ => rfl
    · exact h
  · exact h

/-! ### The clock -/

theorem park_tokens (t : TaskId) (s : State A) : (s.park t).tokens = s.tokens := by
  unfold park
  split
  · split <;> rfl
  · rfl

/-- **When the clock moves**, nothing happens but that some are woken. -/
theorem tick_cases (h : s.AtPeace) (htick : s.tick = some s') : s'.AtPeace ∧ s'.tokens = s.tokens := by
  have hfold : ∀ (es : List (Nat × Firing)), (∀ e ∈ es, ∃ t, e.2 = .task t) → ∀ {s : State A}, s.AtPeace →
      (es.foldl (fun s e => s.fire e.2) s).AtPeace ∧ (es.foldl (fun s e => s.fire e.2) s).tokens = s.tokens := by
    intro es hes
    induction es with
    | nil => exact fun h => ⟨h, rfl⟩
    | cons e rest ih =>
      intro s h
      obtain ⟨t, ht⟩ := hes e List.mem_cons_self
      have hfire : (s.fire e.2).AtPeace ∧ (s.fire e.2).tokens = s.tokens := by
        rw [ht, fire]
        split
        · exact ⟨h, rfl⟩
        · exact ⟨h.wake t, (wake_spares s t).tokens⟩
      obtain ⟨hpeace, htokens⟩ := ih (fun e he => hes e (List.mem_cons_of_mem _ he)) hfire.1
      exact ⟨hpeace, htokens.trans hfire.2⟩
  obtain ⟨due, -, rfl⟩ := Option.map_eq_some_iff.1 htick
  refine hfold _ (fun e he => ?_) (h.of_tasks ?_ rfl)
  · rw [firings, mem_sortBy, h.alarms] at he
    obtain ⟨t, -, ht⟩ := List.mem_flatMap.1 ((List.mem_append.1 he).resolve_right List.not_mem_nil)
    split at ht
    · obtain ⟨_, -, rfl⟩ := List.mem_map.1 ht
      exact ⟨t, rfl⟩
    · cases ht
  · rw [h.alarms]
    rfl

/-- A move that is no signal keeps the peace, and if it is nobody's turn, all tokens. -/
theorem move_atPeace (h : s.AtPeace) {m : Move} (hm : ∀ g, m ≠ .signal g) :
    ((s.move w m).getD s).AtPeace ∧ (s.turnOf w m = none → ((s.move w m).getD s).tokens = s.tokens) := by
  cases m with
  | step t =>
    show ((s.advance w t).getD s).AtPeace ∧ ((s.advance w t).map (fun _ => t) = none → _)
    cases hadvance : s.advance w t with
    | none => exact ⟨h, fun _ => by rw [State.move, hadvance]; rfl⟩
    | some s' =>
      refine ⟨advance_atPeace h hadvance, fun hnone => ?_⟩
      cases hnone
  | park t => exact ⟨park_atPeace h t, fun _ => park_tokens t s⟩
  | tick =>
    show (s.tick.getD s).AtPeace ∧ (_ → (s.tick.getD s).tokens = s.tokens)
    cases htick : s.tick with
    | none => exact ⟨h, fun _ => rfl⟩
    | some s' =>
      obtain ⟨hpeace, htokens⟩ := tick_cases h htick
      exact ⟨hpeace, fun _ => htokens⟩
  | signal g => exact absurd rfl (hm g)

end State

/-! ### Given moves -/

namespace Execution

variable {buses : Nat} {p : Program A Outcome} {memory : A.Memory} {moves : List Move} {n : Nat}

/-- The move that comes next. -/
theorem ne_signal_of_moves (hmoves : ∀ g, .signal g ∉ moves) (n : Nat) (g : Signal) :
    (moves[n]?).getD .tick ≠ .signal g := by
  intro heq
  cases hmove : moves[n]? with
  | none => rw [hmove] at heq; cases heq
  | some m =>
    rw [hmove] at heq
    exact hmoves g (heq ▸ List.mem_of_getElem? hmove)

/-- **A process to which no signal is sent is left in peace**, -/
theorem directed_atPeace (hmoves : ∀ g, .signal g ∉ moves) (hn : 1 ≤ n) :
    ((Execution.directed w buses p memory moves).state n).AtPeace := by
  induction hn with
  | refl =>
    refine ⟨rfl, fun k hk => ?_⟩
    rw [List.mem_singleton.1 hk]
    rfl
  | @step n hn ih =>
    obtain ⟨n, rfl⟩ := Nat.exists_eq_add_of_le' hn
    exact (State.move_atPeace ih fun g => ne_signal_of_moves hmoves n g).1

/-- and nothing happens to tokens when it is nobody's turn. -/
theorem directed_tokens (hmoves : ∀ g, .signal g ∉ moves) (hn : 1 ≤ n)
    (hturn : (Execution.directed w buses p memory moves).turn n = none) :
    ((Execution.directed w buses p memory moves).state (n + 1)).tokens
      = ((Execution.directed w buses p memory moves).state n).tokens := by
  obtain ⟨n, rfl⟩ := Nat.exists_eq_add_of_le' hn
  exact (State.move_atPeace (directed_atPeace hmoves hn) fun g => ne_signal_of_moves hmoves n g).2 hturn

end Execution

end Orchestra.Machine
