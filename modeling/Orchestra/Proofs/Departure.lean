import Orchestra.Proofs.Consistency
import Orchestra.Proofs.Course
import Orchestra.Proofs.Settling

/-!
# How a shutdown ends

Once its workers have been waited for, a shutdown takes modules and listeners off the bus, and for each of
them it waits for the lock of the bus.

* `Ensemble.leave_bind` — what is left of a shutdown is the removal of one listener after another;
* `Doing.Leaving` — how many steps of its own a shutdown is away from its end;
* `Step.leaving` — each step brings it closer;
* `Execution.leave_followed` — so it ends after so many steps, if it takes them;
* `shutdown_past_grace` — nothing keeps it from taking them but another task that uses the bus;
* `Execution.staged` — the execution of a program by given moves, all locks fair;
* `shutdown_past_grace_stuck`, `shutdown_waits_for_worker` — a worker that keeps a shutdown waiting, for
  ever.
-/

namespace Orchestra

open Machine

variable {A : Application} {w : World A} {cast : Cast}

/-! ### What is left of a shutdown -/

namespace Ensemble

theorem unregisterAll_append (bus : BusId) (ls ms : List ListenerId) :
    unregisterAll (A := A) cast bus (ls ++ ms)
      = unregisterAll cast bus ls >>= fun _ => unregisterAll cast bus ms := by
  induction ls with
  | nil => rfl
  | cons l rest ih =>
    show (Bus.unregister cast bus l >>= fun _ => unregisterAll cast bus (rest ++ ms)) = _
    rw [ih]
    exact (Program.bind_assoc _ _ _).symm

/-- The record at the end of a shutdown. -/
def closingRecord (failures : List Fault) (stuck : List String) : Record :=
  ⟨.info, Origin.orchestrator, "shutdown complete",
    [.number "failures" failures.length, .number "stuck" stuck.length]⟩

/-- Takes listeners off a bus, makes a record, and goes on with a program. -/
def removing (cast : Cast) (bus : BusId) (r : Record) (p : Program A Outcome) (ls : List ListenerId) :
    Program A Outcome :=
  (unregisterAll cast bus ls).bind fun _ => .perform (.record r) fun _ => p

/-- What is left of a shutdown once the workers have been waited for: modules and listeners are taken off
the bus, and the end is recorded. -/
theorem leave_bind (e : Ensemble) (failures : List Fault) (stuck : List String)
    (next : ShutdownSummary × Ensemble → Program A Outcome) :
    (leave cast e failures stuck >>= next)
      = removing cast e.bus (closingRecord failures stuck) (next (⟨failures, stuck⟩, e))
        (e.modules ++ e.listeners) := by
  rw [removing, unregisterAll_append]
  show ((unregisterAll cast e.bus e.modules).bind _).bind next = Program.bind (Program.bind _ _) _
  rw [Program.bind_assoc, Program.bind_assoc]
  congr 1
  funext _
  exact Program.bind_assoc _ _ _

/-- A program goes on once the listeners have been changed, and records before if that made a difference. -/
def Resumes (next : Bool → Program A Outcome) (p : Program A Outcome) : Prop :=
  next false = p ∧ ∃ r, next true = .perform (.record r) fun _ => p

/-- To remove one listener more is an edit, and perhaps a record. -/
theorem removing_cons (bus : BusId) (r : Record) (p : Program A Outcome) (l : ListenerId)
    (ls : List ListenerId) :
    ∃ next, removing cast bus r p (l :: ls) = .perform (.edit bus (.remove l)) next ∧
      Resumes next (removing cast bus r p ls) := by
  have hfirst : removing cast bus r p (l :: ls)
      = Bus.unregister cast bus l >>= fun _ => removing cast bus r p ls :=
    Program.bind_assoc _ _ _
  rw [hfirst]
  exact (Bus.Registers.unregister l fun _ => removing cast bus r p ls).program

end Ensemble

namespace Machine

/-! ### The way to the end -/

/-- What a task does that takes listeners off a bus, makes a record, and goes on with a program; and how
many steps of its own it takes until then, at most. -/
inductive Doing.Leaving (cast : Cast) (b : BusId) (all : List ListenerId) (r : Record)
    (p : Program A Outcome) : Nat → Doing A → Prop where
  /-- Some listeners are left. -/
  | removes (ls : List ListenerId) : ls ⊆ all →
      Leaving cast b all r p (4 * ls.length + 1) (.running (Ensemble.removing cast b r p ls))
  /-- It waits for the lock to remove one of them. -/
  | waits (l : ListenerId) (ls : List ListenerId) (next : Bool → Program A Outcome) :
      l ∈ all → ls ⊆ all → Ensemble.Resumes next (Ensemble.removing cast b r p ls) →
      Leaving cast b all r p (4 * ls.length + 4) (.waiting (.editing b (.remove l) next))
  /-- It removes one of them. -/
  | replaces (l : ListenerId) (ls copy : List ListenerId) (next : Bool → Program A Outcome) :
      l ∈ all → ls ⊆ all → Ensemble.Resumes next (Ensemble.removing cast b r p ls) →
      Leaving cast b all r p (4 * ls.length + 3) (.waiting (.replacing b (.remove l) copy next))
  /-- It has removed one of them, and records it. -/
  | records (ls : List ListenerId) (r' : Record) : ls ⊆ all →
      Leaving cast b all r p (4 * ls.length + 2)
        (.running (.perform (.record r') fun _ => Ensemble.removing cast b r p ls))

section Leaving

variable {t : TaskId} {b : BusId} {all : List ListenerId} {r : Record} {p : Program A Outcome}
  {n : Nat} {doing : Doing A} {calls : Calls A} {passes : List Pass} {g g' : Buses} {k' : Core A}

/-- **Each step brings a shutdown closer to its end.** -/
theorem Step.leaving (h : doing.Leaving cast b all r p n)
    (hstep : Step w t g ⟨doing, calls, passes⟩ g' k') (hended : k'.doing ≠ .ended)
    (hdepth : calls.length ≤ k'.calls.length) :
    0 < n ∧ k' = ⟨.running p, calls, passes⟩ ∨
      ∃ doing' m, m < n ∧ doing'.Leaving cast b all r p m ∧ k' = ⟨doing', calls, passes⟩ := by
  cases h with
  | removes ls hls =>
    cases ls with
    | nil => exact .inl ⟨Nat.succ_pos _, Step.of_record hended hdepth hstep⟩
    | cons l ls =>
      obtain ⟨hl, hrest⟩ := List.cons_subset.1 hls
      obtain ⟨next, hnext, hresumes⟩ := Ensemble.removing_cons b r p l ls
      rw [hnext] at hstep
      refine .inr ⟨_, _, ?_, .waits l ls next hl hrest hresumes, Step.of_edit hended hdepth hstep⟩
      rw [List.length_cons]
      omega
  | waits l ls next hl hls hresumes =>
    obtain ⟨copy, hafter⟩ := Step.of_editing hended hdepth hstep
    exact .inr ⟨_, _, Nat.lt_succ_self _, .replaces l ls copy next hl hls hresumes, hafter⟩
  | replaces l ls copy next hl hls hresumes =>
    obtain ⟨hfalse, r', htrue⟩ := hresumes
    have hafter := Step.of_replacing hended hdepth hstep
    cases hchanges : (Edit.remove l).changes copy with
    | false =>
      rw [hchanges, hfalse] at hafter
      exact .inr ⟨_, _, by omega, .removes ls hls, hafter⟩
    | true =>
      rw [hchanges, htrue] at hafter
      exact .inr ⟨_, _, Nat.lt_succ_self _, .records ls r' hls, hafter⟩
  | records ls r' hls =>
    exact .inr ⟨_, _, Nat.lt_succ_self _, .removes ls hls, Step.of_record hended hdepth hstep⟩

theorem Doing.Leaving.not_ended (h : doing.Leaving cast b all r p n) : doing ≠ .ended := by
  cases h <;> exact nofun

/-- Only the lock of the bus keeps a shutdown from its next step. -/
theorem Doing.Leaving.of_advance_none (h : doing.Leaving cast b all r p n) {s : State A}
    (hk : s.core t = some ⟨doing, calls, passes⟩) (hnone : s.advance w t = none) :
    s.claimWaits b t = true ∧
      ∃ l next, l ∈ all ∧ doing = .waiting (.editing b (.remove l) next) := by
  obtain ⟨k, htask, hcore⟩ := Option.map_eq_some_iff.1 hk
  obtain rfl : k.status.doing = doing := congrArg Core.doing hcore
  rw [State.advance, htask] at hnone
  dsimp only at hnone
  cases hstatus : k.status with
  | ended e =>
    rw [hstatus] at h
    exact absurd rfl h.not_ended
  | running q =>
    rw [hstatus] at hnone
    cases hnone
  | waiting wait stamp =>
    rw [hstatus] at h hnone
    dsimp only at hnone
    split at hnone
    · cases hnone
    cases wait with
    | editing b' edit next =>
      cases h with
      | waits l ls next hl hls hresumes =>
        refine ⟨?_, l, next, hl, rfl⟩
        cases hwaits : s.claimWaits b t with
        | true => rfl
        | false =>
          rw [State.proceed, if_neg (by rw [hwaits]; exact Bool.false_ne_true)] at hnone
          cases hnone
    | replacing => cases hnone
    | _ => cases h

theorem Doing.Leaving.pos (h : doing.Leaving cast b all r p n) : 0 < n := by
  cases h <;> exact Nat.succ_pos _

end Leaving

namespace Execution

variable {x : Execution w} {t : TaskId} {b : BusId} {all : List ListenerId} {r : Record}
  {p : Program A Outcome} {c i j : Nat} {doing : Doing A} {calls : Calls A} {passes : List Pass}

/-- How many of the steps from `i` to `j` are those of task `t`. -/
def turns (x : Execution w) (t : TaskId) (i j : Nat) : Nat :=
  (List.range' i (j - i)).countP fun n => x.turn n = some t

theorem turns_self (i : Nat) : x.turns t i i = 0 := by
  rw [turns, Nat.sub_self]
  rfl

theorem turns_succ (hij : i ≤ j) :
    x.turns t i (j + 1) = x.turns t i j + if x.turn j = some t then 1 else 0 := by
  have hlast : i + 1 * (j - i) = j := by omega
  rw [turns, turns, Nat.succ_sub hij, List.range'_concat, List.countP_append, hlast,
    List.countP_singleton]
  simp only [decide_eq_true_eq]

/-- **After so many steps of its own a shutdown has ended.** -/
theorem leaving_followed (h : doing.Leaving cast b all r p c) (hij : i ≤ j)
    (huncut : x.Uncut t calls.length i j)
    (hk : (x.state i).core t = some ⟨doing, calls, passes⟩) :
    (∃ n, i ≤ n ∧ n ≤ j ∧ x.turns t i n ≤ c ∧
        (x.state n).core t = some ⟨.running p, calls, passes⟩) ∨
      ∃ doing' m, x.turns t i j + m ≤ c ∧ doing'.Leaving cast b all r p m ∧
        (x.state j).core t = some ⟨doing', calls, passes⟩ := by
  induction hij with
  | refl => exact .inr ⟨doing, c, Nat.le_of_eq (by rw [turns_self, Nat.zero_add]), h, hk⟩
  | @step j hij ih =>
    rcases ih (huncut.mono (Nat.le_refl i) (Nat.le_succ j)) with
      ⟨n, hi, hj, hturns, hback⟩ | ⟨doing', m, hturns, hleaving, hj⟩
    · exact .inl ⟨n, hi, Nat.le_succ_of_le hj, hturns, hback⟩
    · obtain ⟨k', hk', hended', hdepth⟩ := huncut (j + 1) (Nat.le_succ_of_le hij) (Nat.le_refl _)
      by_cases hturn : x.turn j = some t
      · have hcount : x.turns t i j.succ = x.turns t i j + 1 := by rw [turns_succ hij, if_pos hturn]
        rcases (step_of_turn hturn hj hk').leaving hleaving hended' hdepth with
          ⟨hpos, rfl⟩ | ⟨doing'', m', hless, hleaving', rfl⟩
        · refine .inl ⟨j.succ, Nat.le_succ_of_le hij, Nat.le_refl _, ?_, hk'⟩
          omega
        · refine .inr ⟨doing'', m', ?_, hleaving', hk'⟩
          omega
      · have hcount : x.turns t i j.succ = x.turns t i j := by rw [turns_succ hij, if_neg hturn]; rfl
        obtain rfl := same_of_turn_ne hturn hj hleaving.not_ended hk' hended'
        exact .inr ⟨doing', m, hcount ▸ hturns, hleaving, hk'⟩

end Execution

end Machine

/-! ### The main result -/

/-- How many steps of its own a shutdown takes at most once the workers have been waited for: four for each
module and listener, and one for the record. -/
def Ensemble.leavingSteps (e : Ensemble) : Nat := 4 * (e.modules ++ e.listeners).length + 1

/-- **Past its grace period a shutdown waits for nothing but the lock of its bus**, which another task has
that delivers on the bus or is about to read or to change its listeners; and it ends after so many steps of
its own. -/
theorem shutdown_past_grace (x : Execution w) (hfair : x.IsFair) (e : Ensemble)
    (failures : List Fault) (stuck : List String)
    (next : ShutdownSummary × Ensemble → Program A Outcome) (t : TaskId) (calls : Calls A)
    (passes : List Pass) (i j : Nat) (hij : i ≤ j) (huncut : x.Uncut t calls.length i j)
    (houtside : ∀ q ∈ passes, q.bus ≠ e.bus)
    (hk : (x.state i).core t
      = some ⟨.running (e.leave cast failures stuck >>= next), calls, passes⟩) :
    -- The shutdown has ended with its report,
    (∃ n, i ≤ n ∧ n ≤ j ∧ x.turns t i n ≤ e.leavingSteps ∧
      (x.state n).core t = some ⟨.running (next (⟨failures, stuck⟩, e)), calls, passes⟩) ∨
    -- or it can go on, or it waits for the lock, which somebody else has.
    x.turns t i j < e.leavingSteps ∧ ∃ doing, (x.state j).core t = some ⟨doing, calls, passes⟩ ∧
      ∀ bs, (x.state j).bus e.bus = some bs → (x.state j).advance w t = none →
        (∃ l next', l ∈ e.modules ++ e.listeners ∧
          doing = .waiting (.editing e.bus (.remove l) next')) ∧
        ∃ u k, u ≠ t ∧ (x.state j).core u = some k ∧ k.Uses e.bus := by
  rw [Ensemble.leave_bind] at hk
  rcases Execution.leaving_followed (.removes _ (List.Subset.refl _)) hij huncut hk with
    ⟨n, hi, hj, hturns, hback⟩ | ⟨doing, m, hturns, hleaving, hj⟩
  · exact .inl ⟨n, hi, hj, hturns, hback⟩
  · have hpos := hleaving.pos
    refine .inr ⟨?_, doing, hj, fun bs hbs hnone => ?_⟩
    · unfold Ensemble.leavingSteps
      omega
    · obtain ⟨hwaits, l, next', hl, rfl⟩ := hleaving.of_advance_none hj hnone
      refine ⟨⟨l, next', hl, rfl⟩, Execution.kept_waiting hfair hj houtside hbs ?_⟩
      have hbuses : (x.state j).buses[e.bus]? = some bs := hbs
      rwa [State.claimWaits, hbuses, Option.map_some, Option.getD_some] at hwaits

/-! ### A worker that keeps a shutdown waiting -/

namespace Machine

/-- What may happen next: a task takes a step, or takes its place among those that wait, or the clock moves
to the next deadline, or a signal comes. -/
inductive Move where
  | step (t : TaskId)
  | park (t : TaskId)
  | tick
  | signal (g : Signal)

/-- The state after a move, if that is possible. -/
def State.move (w : World A) (s : State A) : Move → Option (State A)
  | .step t => s.advance w t
  | .park t => some (s.park t)
  | .tick => s.tick
  | .signal g => some (s.deliverSignal g)

/-- The states of a process with one bus whose main task is given a program, move after move. -/
def State.staged (w : World A) (p : Program A Outcome) (memory : A.Memory) (moves : Nat → Move) :
    Nat → State A
  | 0 => .start 1 memory
  | 1 => { State.start 1 memory with tasks := [{ role := .main, status := .running p }] }
  | n + 2 => ((staged w p memory moves (n + 1)).move w (moves n)).getD
      (staged w p memory moves (n + 1))

/-- Whose step a move is. -/
def State.turnOf (w : World A) (s : State A) : Move → Option TaskId
  | .step t => (s.advance w t).map fun _ => t
  | _ => none

theorem State.happens_move (s : State A) (m : Move) :
    Happens w (s.turnOf w m) s ((s.move w m).getD s) := by
  cases m with
  | step t =>
    show Happens w ((s.advance w t).map fun _ => t) s ((s.advance w t).getD s)
    cases h : s.advance w t with
    | none => exact State.happens_of_same rfl rfl
    | some s' => exact .turn h
  | park t => exact State.happens_park t s
  | tick =>
    show Happens w none s (s.tick.getD s)
    cases h : s.tick with
    | none => exact State.happens_of_same rfl rfl
    | some s' => exact State.happens_tick h
  | signal g => exact State.happens_of_same (State.core_deliverSignal g s) (State.deliverSignal_buses g s)

/-- Whatever may happen when it is nobody's turn happens with a move that is no step of a task. -/
theorem State.move_aside {R : State A → State A → Prop} (hrefl : ∀ s, R s s) (hpark : ∀ t s, R s (s.park t))
    (htick : ∀ {s s'}, s.tick = some s' → R s s') (hsignal : ∀ g s, R s (s.deliverSignal g)) {s : State A}
    {m : Move} (h : s.turnOf w m = none) : R s ((s.move w m).getD s) := by
  cases m with
  | step t =>
    have hnone : s.advance w t = none := Option.map_eq_none_iff.1 h
    show R s ((s.advance w t).getD s)
    rw [hnone]
    exact hrefl s
  | park t => exact hpark t s
  | tick =>
    show R s (s.tick.getD s)
    cases h : s.tick with
    | none => exact hrefl s
    | some s' => exact htick h
  | signal g => exact hsignal g s

theorem State.settled_move {s : State A} (h : s.bus.Settled) (m : Move) :
    ((s.move w m).getD s).bus.Settled := by
  cases m with
  | step t =>
    show ((s.advance w t).getD s).bus.Settled
    cases hadvance : s.advance w t with
    | none => exact h
    | some s' => exact State.advance_settled hadvance h
  | park t =>
    show (s.park t).bus.Settled
    rw [State.bus_eq (State.park_buses t s)]
    exact h
  | tick =>
    show (s.tick.getD s).bus.Settled
    cases htick : s.tick with
    | none => exact h
    | some s' =>
      rw [Option.getD_some, State.bus_eq (State.tick_spares htick).2]
      exact h
  | signal g =>
    show (s.deliverSignal g).bus.Settled
    rw [State.bus_eq (State.deliverSignal_buses g s)]
    exact h

/-- The execution in which a main task is given a program, and the given moves are made. -/
def Execution.staged (w : World A) (p : Program A Outcome) (memory : A.Memory)
    (moves : Nat → Move) : Execution w where
  state := State.staged w p memory moves
  turn n := match n with
    | 0 => none
    | n + 1 => (State.staged w p memory moves (n + 1)).turnOf w (moves n)
  start := ⟨1, memory, rfl⟩
  happens n := by
    cases n with
    | zero => exact State.happens_given w p memory
    | succ n => exact State.happens_move _ _

theorem Execution.staged_isFair (w : World A) (p : Program A Outcome) (memory : A.Memory)
    (moves : Nat → Move) : (Execution.staged w p memory moves).IsFair := by
  have hstart : (State.start (A := A) 1 memory).bus.Settled := State.start_settled 1 memory
  intro n
  induction n with
  | zero => exact hstart
  | succ n ih =>
    cases n with
    | zero => exact hstart
    | succ n => exact State.settled_move ih _

end Machine

/-- A world in which listeners never come to an end, and whoever has a job publishes. -/
def World.hanging : World .bare where
  cast := .sample
  body
    | .onEvent .. => .perform .hang nofun
    | _ => .done (.ok ())
  job _ := Bus.publish .sample 0 (.shutdownRequested "test") none >>= fun _ => .done (.ok ())

/-- An ensemble of one listener, which waits a second for its workers. -/
def Ensemble.lone : Ensemble where
  config := { grace := .ofSeconds 1 }
  bus := 0
  types := .core
  slots := []
  listeners := [9]
  runtime := 0
  request := 0
  crew := 0

/-- The listener is registered, a worker is hired, and the ensemble is shut down. -/
def Program.loneSession : Program .bare Outcome := do
  let _ ← Bus.register .sample 0 9
  let _ ← .ask (.newToken none)
  let crew ← .ask .newCrew
  .ask (.hire crew "beat" ())
  let _ ← Ensemble.lone.shutdown .sample "lone"
  return .ok ()

/-- The worker publishes; then the main task goes on with the shutdown, and the grace period passes. -/
def Machine.Move.lone (n : Nat) : Move :=
  ((List.replicate 8 (.step 0) ++ List.replicate 5 (.step 1) ++ [.step 0, .park 1, .park 0, .tick]
    ++ List.replicate 4 (.step 0))[n]?).getD .tick

/-- The execution of the session. -/
def Machine.Execution.lone : Execution World.hanging :=
  .staged World.hanging Program.loneSession () Move.lone

/-- The worker is still publishing when its time is over, and the shutdown waits for it. -/
theorem shutdown_past_grace_stuck :
    (∃ next', (Execution.lone.state 22).core 0
        = some ⟨.waiting (.editing 0 (.remove 9) next'), [], []⟩) ∧
      ∃ u k, u ≠ 0 ∧ (Execution.lone.state 22).core u = some k ∧ k.Uses 0 := by
  have hfair : Execution.lone.IsFair := Execution.staged_isFair _ _ _ _
  rcases shutdown_past_grace Execution.lone hfair Ensemble.lone [] ["beat"]
      (fun _ => .done (.ok ())) 0 [] [] 21 22 (by decide)
      (Execution.uncut_of_isWithin (by decide)) nofun rfl with
    ⟨n, hi, hj, -, hback⟩ | ⟨-, doing, hdoing, hwaits⟩
  · obtain rfl | rfl : n = 21 ∨ n = 22 := by omega
    · cases hback
    · cases hback
  · obtain ⟨⟨l, next', hl, rfl⟩, huser⟩ := hwaits _ rfl rfl
    obtain rfl : l = 9 := List.mem_singleton.1 hl
    exact ⟨⟨next', hdoing⟩, huser⟩

/-- So it waits for ever: its time is over, nobody but the worker has the lock, nobody can take a step, and
nothing more happens. -/
theorem shutdown_waits_for_worker :
    (Execution.lone.state 22).now = 1000 ∧
      (∃ next', (Execution.lone.state 22).core 0
        = some ⟨.waiting (.editing 0 (.remove 9) next'), [], []⟩) ∧
      ((Execution.lone.state 22).tasks[1]?).map Task.role = some (.worker 0 0 "beat") ∧
      ((Execution.lone.state 22).bus 0).map (fun bs => bs.lock.holders) = some [⟨1, .read⟩] ∧
      (∀ t, (Execution.lone.state 22).advance World.hanging t = none) ∧
      ∀ n, 22 ≤ n → Execution.lone.state n = Execution.lone.state 22 := by
  have hclock : (Execution.lone.state 22).tick = none := rfl
  refine ⟨rfl, ⟨_, rfl⟩, rfl, rfl, fun t => ?_, fun n hn => ?_⟩
  · match t with
    | 0 => rfl
    | 1 => rfl
    | t + 2 =>
      have htask : (Execution.lone.state 22).tasks[t + 2]? = none :=
        List.getElem?_eq_none (Nat.le_add_left 2 t)
      rw [State.advance, htask]
  · induction hn with
    | refl => rfl
    | @step n hn ih =>
      obtain ⟨m, rfl⟩ := Nat.exists_eq_add_of_le' hn
      have hmove : Move.lone (m + 21) = .tick := by
        rw [Move.lone, List.getElem?_eq_none (Nat.le_add_left 21 m), Option.getD_none]
      show ((Execution.lone.state (m + 22)).move World.hanging (Move.lone (m + 21))).getD
        (Execution.lone.state (m + 22)) = _
      rw [hmove, ih, State.move, hclock, Option.getD_none]

end Orchestra
