import Orchestra.Proofs.Departure
import Orchestra.Proofs.Reentrance

/-!
# Executions by given moves

* `Execution.directed` — the main task of a process with any number of buses is given a program, some moves
  are made, and then only the clock moves;
* `Execution.directed_isFair`, `Execution.directed_isOrderly` — its locks are fair, and everybody obeys if
  the program and the world do;
* `Execution.directed_rest` — once the clock stands still, nothing changes any more; `Execution.directed_forever`
  — so what is true until then is true for ever;
* `Program.resting` — a program at the end of which nothing happens any more.
-/

namespace Orchestra

/-- A program that waits for ever. -/
def Program.resting {A : Application} : Program A Outcome := .perform .hang nofun

theorem Program.resting_obeys {A : Application} : (Program.resting : Program A Outcome).Obeys .free :=
  Program.obeys_perform id nofun nofun

namespace Machine

variable {A : Application} {w : World A}

/-- The main task of a process in which nothing has happened is given a program. -/
def State.given (buses : Nat) (p : Program A Outcome) (memory : A.Memory) : State A :=
  { State.start buses memory with tasks := [{ role := .main, status := .running p }] }

/-- The states of a process whose main task is given a program, move after move. -/
def State.directed (w : World A) (buses : Nat) (p : Program A Outcome) (memory : A.Memory)
    (moves : List Move) : Nat → State A
  | 0 => .start buses memory
  | 1 => .given buses p memory
  | n + 2 => ((directed w buses p memory moves (n + 1)).move w ((moves[n]?).getD .tick)).getD
      (directed w buses p memory moves (n + 1))

theorem State.happens_given_of (buses : Nat) (p : Program A Outcome) (memory : A.Memory) :
    Happens w none (State.start buses memory) (State.given buses p memory) := by
  refine Happens.commission (t := State.mainTask) rfl rfl (fun f hf => (nomatch hf)) ?_ rfl
  intro u hu
  cases u with
  | zero => exact absurd rfl hu
  | succ u => rfl

/-- The execution in which a main task is given a program, some moves are made, and then only the clock
moves. -/
def Execution.directed (w : World A) (buses : Nat) (p : Program A Outcome) (memory : A.Memory)
    (moves : List Move) : Execution w where
  state := State.directed w buses p memory moves
  turn n := match n with
    | 0 => none
    | n + 1 => (State.directed w buses p memory moves (n + 1)).turnOf w ((moves[n]?).getD .tick)
  start := ⟨buses, memory, rfl⟩
  happens n := by
    cases n with
    | zero => exact State.happens_given_of buses p memory
    | succ n => exact State.happens_move _ _

section Directed

variable {buses : Nat} {p : Program A Outcome} {memory : A.Memory} {moves : List Move}

theorem Execution.directed_isFair : (Execution.directed w buses p memory moves).IsFair := by
  have hstart : (State.start (A := A) buses memory).bus.Settled := State.start_settled buses memory
  intro n
  induction n with
  | zero => exact hstart
  | succ n ih =>
    cases n with
    | zero => exact hstart
    | succ n => exact State.settled_move ih _

/-- No move gives a task that has ended anything to do. -/
theorem State.ended_move {s : State A} {t : TaskId} (h : s.core t = some ⟨.ended, [], []⟩) (m : Move) :
    ((s.move w m).getD s).core t = some ⟨.ended, [], []⟩ := by
  cases m with
  | step u =>
    show ((s.advance w u).getD s).core t = _
    cases hadvance : s.advance w u with
    | none => exact h
    | some s' =>
      have hstepped := State.advance_stepped hadvance
      by_cases ht : t = u
      · subst ht
        obtain ⟨k, k', hk, -, hstep⟩ := hstepped.own
        obtain rfl := Option.some.inj (h.symm.trans hk)
        exact absurd rfl hstep.not_ended
      · rcases hstepped.others t ht with hsame | ⟨hnone, -⟩
        · exact hsame.trans h
        · cases hnone.symm.trans h
  | park u => exact (congrFun (State.park_core u s) t).trans h
  | tick =>
    show (s.tick.getD s).core t = _
    cases htick : s.tick with
    | none => exact h
    | some s' => exact (congrFun (State.tick_spares htick).1 t).trans h
  | signal g => exact (congrFun (State.core_deliverSignal g s) t).trans h

/-- Everybody obeys if the program and the world do. -/
theorem Execution.directed_isOrderly (hw : w.IsOrderly) (hp : p.Obeys .free) :
    (Execution.directed w buses p memory moves).IsOrderly := by
  refine ⟨hw, fun n t q calls hended hbegun => ?_⟩
  cases n with
  | zero =>
    cases t with
    | zero => cases hbegun; exact ⟨hp, nofun⟩
    | succ t => cases hended
  | succ n => cases (State.ended_move (w := w) hended _).symm.trans hbegun

/-- Once all moves have been made it is nobody's turn. -/
theorem Execution.directed_turn {n : Nat} (hn : moves.length < n) :
    (Execution.directed w buses p memory moves).turn n = none := by
  obtain ⟨m, rfl⟩ := Nat.exists_eq_add_of_lt hn
  show State.turnOf w _ ((moves[moves.length + m]?).getD .tick) = none
  rw [List.getElem?_eq_none (Nat.le_add_right _ _)]
  rfl

/-- Once all moves have been made and the clock stands still, nothing changes any more. -/
theorem Execution.directed_rest {n : Nat}
    (h : ((Execution.directed w buses p memory moves).state (moves.length + 1)).tick = none)
    (hn : moves.length + 1 ≤ n) : (Execution.directed w buses p memory moves).state n
      = (Execution.directed w buses p memory moves).state (moves.length + 1) := by
  induction hn with
  | refl => rfl
  | @step n hn ih =>
    obtain ⟨m, rfl⟩ := Nat.exists_eq_add_of_le' hn
    have hmove : moves[m + moves.length]? = none := List.getElem?_eq_none (Nat.le_add_left _ _)
    show ((State.directed w buses p memory moves (m + moves.length + 1)).move w
      ((moves[m + moves.length]?).getD .tick)).getD _ = _
    rw [hmove, Option.getD_none, State.move]
    have hsame : State.directed w buses p memory moves (m + moves.length + 1)
      = State.directed w buses p memory moves (moves.length + 1) := ih
    have hclock : (State.directed w buses p memory moves (moves.length + 1)).tick = none := h
    rw [hsame, hclock, Option.getD_none]
    exact hsame

/-- So what is true of the states until then is true for ever. -/
theorem Execution.directed_forever {P : State A → Prop} {i n : Nat}
    (h : ((Execution.directed w buses p memory moves).state (moves.length + 1)).tick = none)
    (hP : ∀ n, n ≤ moves.length + 1 → i ≤ n → P ((Execution.directed w buses p memory moves).state n))
    (hi : i ≤ moves.length + 1) (hn : i ≤ n) : P ((Execution.directed w buses p memory moves).state n) := by
  rcases Nat.le_total n (moves.length + 1) with hle | hge
  · exact hP n hle hn
  · rw [directed_rest h hge]
    exact hP _ (Nat.le_refl _) hi

end Directed

end Machine

end Orchestra
