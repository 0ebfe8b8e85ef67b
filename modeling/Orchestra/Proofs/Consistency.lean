import Orchestra.Proofs.Construction
import Orchestra.Proofs.Delivering

/-!
# Deliveries see one consistent set of listeners

* `Execution.solo` — what one program does when nothing else happens;
* `deliveries_consistent` — in every execution, the listeners of a bus are a set, are what the changes have
  made of it one after another, and are those that each delivery calls, from its first call to its last.
-/

namespace Orchestra

open Machine

variable {A : Application} {w : World A}

/-! ### A process with one task -/

namespace Machine

/-- The states of a process whose main task runs a program, while nothing else happens. -/
def State.solo (w : World A) (p : Program A Outcome) (memory : A.Memory) : Nat → State A
  | 0 => .start 1 memory
  | 1 => { State.start 1 memory with tasks := [{ role := .main, status := .running p }] }
  | n + 2 => ((solo w p memory (n + 1)).advance w mainTask).getD (solo w p memory (n + 1))

/-- The main task is given a program. -/
theorem State.happens_given (w : World A) (p : Program A Outcome) (memory : A.Memory) :
    Happens w none (State.start 1 memory)
      { State.start 1 memory with tasks := [{ role := .main, status := .running p }] } := by
  refine Happens.commission (t := State.mainTask) rfl rfl (fun f hf => (nomatch hf)) ?_ rfl
  intro u hu
  cases u with
  | zero => exact absurd rfl hu
  | succ u => rfl

/-- The execution in which the main task runs a program, and nothing else happens. -/
def Execution.solo (w : World A) (p : Program A Outcome) (memory : A.Memory) : Execution w where
  state := State.solo w p memory
  turn n := match n with
    | 0 => none
    | n + 1 => (State.advance w State.mainTask (State.solo w p memory (n + 1))).map
      fun _ => State.mainTask
  start := ⟨1, memory, rfl⟩
  happens n := by
    cases n with
    | zero => exact State.happens_given w p memory
    | succ n =>
      show Happens w (((State.solo w p memory (n + 1)).advance w State.mainTask).map
          fun _ => State.mainTask) (State.solo w p memory (n + 1))
        (((State.solo w p memory (n + 1)).advance w State.mainTask).getD
          (State.solo w p memory (n + 1)))
      cases h : (State.solo w p memory (n + 1)).advance w State.mainTask with
      | none => exact State.happens_of_same rfl rfl
      | some s => exact .turn h

/-- Whether a task is within `d` calls and has not ended. -/
def Core.isWithin (d : Nat) (k : Core A) : Bool :=
  match k.doing with
  | .ended => false
  | _ => d ≤ k.calls.length

theorem Execution.uncut_of_isWithin {x : Execution w} {t : TaskId} {d i j : Nat}
    (h : ∀ n, n ≤ j → i ≤ n → ((x.state n).core t).any (Core.isWithin d) = true) :
    x.Uncut t d i j := by
  intro n hi hj
  have hwithin := h n hj hi
  cases hk : (x.state n).core t with
  | none =>
    rw [hk] at hwithin
    cases hwithin
  | some k =>
    rw [hk, Option.any_some, Core.isWithin] at hwithin
    refine ⟨k, rfl, fun hended => ?_, ?_⟩
    · rw [hended] at hwithin
      cases hwithin
    · split at hwithin
      · cases hwithin
      · exact of_decide_eq_true hwithin

end Machine

/-- A world in which nothing is worth mentioning. -/
def World.bare : World .bare := ⟨.sample, fun _ => .done (.ok ()), fun _ => .done (.ok ())⟩

/-- What comes after the delivery of the sample session: another listener is registered. -/
def Program.sampleRest (_ : Delivery) : Program .bare Outcome :=
  Bus.register .sample 0 8 >>= fun _ => .done (.ok ())

/-- What comes after the first registration of the sample session: an event is delivered. -/
def Program.samplePublish (_ : Bool) : Program .bare Outcome :=
  Bus.publish .sample 0 (.shutdownRequested "test") none >>= sampleRest

/-- A listener is registered, an event is delivered, and another listener is registered. -/
def Program.sampleSession : Program .bare Outcome := Bus.register .sample 0 7 >>= samplePublish

/-- The execution of the sample session. -/
def Machine.Execution.sample : Execution World.bare := .solo World.bare Program.sampleSession ()

/-! ### The main result -/

/-- **Deliveries see one consistent set of listeners**, whoever takes turns when, and however locks choose
among readers and writers. -/
theorem deliveries_consistent (x : Execution w) (b : BusId) :
    -- Nobody is registered twice.
    (∀ n, (x.listeners b n).Nodup) ∧
    -- The listeners are what the changes have made of nobody, in the order in which they were made.
    (∀ n, x.listeners b n = (x.edits b n).foldl (fun set e => e.apply set) []) ∧
    -- A change is made by a task that holds the lock alone, to the listeners of the moment, and answers
    -- whether it made a difference.
    (∀ n e, x.edit b n = some e → ∃ t, x.Changes b n t e) ∧
    -- No change is made while anybody holds the lock to read.
    (∀ n t bs, (x.state n).bus b = some bs → ⟨t, .read⟩ ∈ bs.lock.holders → x.edit b n = none) ∧
    -- Whoever registers or unregisters a listener makes one such change.
    (∀ cast e p next t calls passes i j, Bus.Registers cast b e p next → i ≤ j →
      x.Uncut t calls.length i j → (x.state i).core t = some ⟨.running p, calls, passes⟩ →
      x.Enrols b e t calls passes next i j) ∧
    -- Whoever delivers an event outside of any delivery on the bus calls those that are meant.
    (∀ cast event targets p next t calls passes i j, Bus.Publishes cast b event targets p next →
      (∀ q ∈ passes, q.bus ≠ b) → i ≤ j → x.Uncut t calls.length i j →
      (x.state i).core t = some ⟨.running p, calls, passes⟩ →
      x.Delivers cast b event targets t calls passes next i j) := by
  refine ⟨x.nodup b, x.listeners_eq b, fun n e => Execution.changes_of_edit, fun n t bs => ?_, ?_, ?_⟩
  · exact Execution.edit_eq_none_of_reader
  · intro cast e p next t calls passes i j hp hij huncut hk
    exact Execution.register_followed hp hij huncut hk
  · intro cast event targets p next t calls passes i j hp houtside hij huncut hk
    exact Execution.publish_followed hp houtside hij huncut hk

/-- Of the two listeners only the one that was registered before is called. -/
theorem deliveries_consistent_sample :
    Execution.sample.Enrols 0 (.add 7) 0 [] [] Program.samplePublish 1 5 ∧
      Execution.sample.Delivers .sample 0 (.shutdownRequested "test") none 0 [] [] Program.sampleRest
        5 11 ∧
      Execution.sample.heard 0 0 5 11 = [.onEvent 7 (.shutdownRequested "test")] ∧
      Execution.sample.edits 0 15 = [.add 7, .add 8] := by
  obtain ⟨-, -, -, -, henrols, hdelivers⟩ := deliveries_consistent Execution.sample 0
  refine ⟨?_, ?_, rfl, by decide⟩
  · refine henrols .sample (.add 7) _ _ 0 [] [] 1 5 (.register 7 Program.samplePublish) (by decide)
      (Execution.uncut_of_isWithin (by decide)) rfl
  · refine hdelivers .sample _ none _ _ 0 [] [] 5 11 (.emit Program.sampleRest) (fun q hq => nomatch hq)
      (by decide) (Execution.uncut_of_isWithin (by decide)) rfl

end Orchestra
