import Orchestra.Proofs.Tracing

/-!
# A single thread

On a single thread a task that goes on takes the next step too: nobody else does anything before it has to
wait or comes to its end.

* `Execution.IsSingleThreaded` — it is so throughout an execution;
* `Execution.goes_on` — the next step of a task that goes on;
* `State.run_singleThreaded` — the scheduler has one thread;
* `Execution.isSingleThreaded_of` — how it is seen of an execution in which nobody does anything in the end.
-/

namespace Orchestra.Machine

variable {A : Application} {w : World A}

/-- Whether a task goes on without waiting. -/
def State.isRunning (t : TaskId) (s : State A) : Bool :=
  match s.core t with
  | some ⟨.running _, _, _⟩ => true
  | _ => false

/-- A task that goes on takes the next step. -/
def Execution.IsSingleThreaded (x : Execution w) : Prop :=
  ∀ n t, x.turn n = some t → (x.state (n + 1)).isRunning t = true → x.turn (n + 1) = some t

namespace State

variable {s s' : State A} {t : TaskId}

theorem isRunning_of_core {p : Program A Outcome} {calls : Calls A} {passes : List Pass}
    (h : s.core t = some ⟨.running p, calls, passes⟩) : s.isRunning t = true := by
  rw [isRunning, h]

/-- Whoever goes on can take a step. -/
theorem advance_of_isRunning (h : s.isRunning t = true) : ∃ s', s.advance w t = some s' := by
  unfold isRunning at h
  split at h
  case h_2 => cases h
  next p calls passes hcore =>
    cases p with
    | perform op next => exact ⟨_, advance_running hcore⟩
    | done o =>
      obtain ⟨k, hk, hkcore⟩ := Option.map_eq_some_iff.1 hcore
      have hstatus : k.status.doing = .running (.done o) := congrArg Core.doing hkcore
      rw [advance, hk]
      dsimp only
      cases hdoing : k.status with
      | running p => exact ⟨_, rfl⟩
      | waiting wait stamp => rw [hdoing] at hstatus; cases hstatus
      | ended e => rw [hdoing] at hstatus; cases hstatus

end State

namespace Execution

variable {x : Execution w} {t : TaskId} {n : Nat}

/-- What a task that goes on asks for is done with the next step. -/
theorem goes_on (hx : x.IsSingleThreaded) (hturn : x.turn n = some t) {op : Op A}
    {next : op.Answer → Program A Outcome} {calls : Calls A} {passes : List Pass}
    (hk : (x.state (n + 1)).core t = some ⟨.running (.perform op next), calls, passes⟩) :
    x.turn (n + 1) = some t ∧ x.state (n + 2) = (x.state (n + 1)).operate w t op next := by
  have hnext := hx n t hturn (State.isRunning_of_core hk)
  exact ⟨hnext, operates_of_turn hnext hk⟩

/-- Whether the task whose turn it is, if it goes on, takes the next step. -/
def keepsOn (x : Execution w) (n : Nat) : Bool :=
  match x.turn n with
  | none => true
  | some t => !(x.state (n + 1)).isRunning t || x.turn (n + 1) == some t

theorem isSingleThreaded_of {m : Nat} (h : ∀ n, n < m → x.keepsOn n = true)
    (hlast : ∀ n, m ≤ n → x.turn n = none) : x.IsSingleThreaded := by
  intro n t hturn hrunning
  have hn : n < m := Nat.lt_of_not_le fun hle => by rw [hlast n hle] at hturn; cases hturn
  have hkeeps := h n hn
  rw [keepsOn, hturn] at hkeeps
  simpa [hrunning] using hkeeps

end Execution

/-! ### The scheduler -/

/-- One thing happens on a single thread, where `lead` is the task that goes on, if there is one: it takes a
step, or nobody goes on, and then anybody may take a step or something else may happen. -/
inductive Alone (w : World A) : Option TaskId × State A → Option TaskId × State A → Prop where
  | turn {lead : Option TaskId} {t : TaskId} {s s' : State A} : lead = none ∨ lead = some t →
      s.advance w t = some s' → Alone w (lead, s) (if s'.isRunning t then some t else none, s')
  | pause {s s' : State A} : Happens w none s s' → Alone w (none, s) (none, s')

/-- **The scheduler has one thread.** -/
theorem State.run_singleThreaded (w : World A) (fuel : Nat) {lead current : Option TaskId} {s : State A}
    (h : ∀ t, lead = some t → current = some t ∧ s.isRunning t = true) :
    ∃ lead', Relation.ReflTransGen (Alone w) (lead, s) (lead', s.run w fuel current) := by
  induction fuel generalizing lead current s with
  | zero => exact ⟨lead, .refl⟩
  | succ fuel ih =>
    have hnobody (u : TaskId) : none ≠ some u := (Option.some_ne_none u).symm
    unfold run
    split
    · exact ⟨lead, .refl⟩
    · split
      · next t =>
        split
        · next s' hadvance =>
          have hlead : lead = none ∨ lead = some t := by
            cases lead with
            | none => exact .inl rfl
            | some u => exact .inr (h u rfl).1.symm
          obtain ⟨lead', hrest⟩ := @ih (if s'.isRunning t then some t else none) (some t) s' (by
            intro u hu
            split at hu
            · next hrunning => exact ⟨hu, Option.some.inj hu ▸ hrunning⟩
            · cases hu)
          exact ⟨lead', .head (.turn hlead hadvance) hrest⟩
        · next hnone =>
          -- Whoever goes on could take a step.
          obtain rfl : lead = none := by
            cases lead with
            | none => rfl
            | some u =>
              obtain ⟨heq, hrunning⟩ := h u rfl
              obtain ⟨s', hadvance⟩ := advance_of_isRunning (w := w) hrunning
              rw [← Option.some.inj heq, hnone] at hadvance
              cases hadvance
          obtain ⟨lead', hrest⟩ := @ih none none (s.park t) fun u hu => absurd hu (hnobody u)
          exact ⟨lead', .head (.pause (happens_park t s)) hrest⟩
      · obtain rfl : lead = none := by
          cases lead with
          | none => rfl
          | some u => cases (h u rfl).1
        split
        · next t s' hpick =>
          have htaken : Happens w none s s' := by
            unfold pick at hpick
            split at hpick
            · cases hpick
            · cases hpick
              exact happens_of_same rfl rfl
          obtain ⟨lead', hrest⟩ := @ih none (some t) (s'.begin t) fun u hu => absurd hu (hnobody u)
          exact ⟨lead', .head (.pause htaken) (.head (.pause (happens_begin t s')) hrest)⟩
        · split
          · exact ⟨none, .refl⟩
          · split
            · next s' htick =>
              obtain ⟨lead', hrest⟩ := @ih none none s' fun u hu => absurd hu (hnobody u)
              exact ⟨lead', .head (.pause (happens_tick htick)) hrest⟩
            · exact ⟨none, .refl⟩

end Orchestra.Machine
