import Orchestra.Proofs.Execution

/-!
# Who keeps whom waiting

A fair lock holds nobody back who could be let in, so whoever waits for it waits for somebody who has it.

* `Lock.IsSettled` — whoever is first in the queue is kept out by the holders;
* `Lock.IsSettled.ask`, `Lock.isSettled_release`, `Lock.isSettled_withdraw` — locks stay settled;
* `Buses.Settled`, `Step.settled`, `State.advance_settled` — and so they do with every step of a task;
* `Core.Uses` — a task has to do with the listeners of a bus;
* `Execution.IsFair` — all locks are settled throughout;
* `Execution.kept_waiting` — whoever waits to change the listeners of a bus waits for another task that uses
  it.
-/

namespace Orchestra

/-! ### Locks -/

namespace Lock

variable {l : Lock}

/-- Nobody is held back without reason: the holders keep out whoever is first in the queue. -/
def IsSettled (l : Lock) : Prop := ∀ c rest, l.queue = c :: rest → admits l.holders c.access = false

theorem isSettled_settleFrom (holders queue : List Claim) :
    (settleFrom holders queue).1.IsSettled := by
  induction queue generalizing holders with
  | nil => exact nofun
  | cons c rest ih =>
    rw [settleFrom]
    split
    · exact ih _
    · next hkept =>
      intro c' rest' hqueue
      obtain ⟨rfl, -⟩ := List.cons.inj hqueue
      exact Bool.eq_false_iff.2 hkept

theorem IsSettled.ask (h : l.IsSettled) (c : Claim) : (l.ask c).IsSettled := by
  unfold Lock.ask
  split
  · next hgranted =>
    intro c' rest hqueue
    obtain ⟨hempty, -⟩ := Bool.and_eq_true_iff.1 hgranted
    rw [show l.queue = [] from List.isEmpty_iff.1 hempty] at hqueue
    cases hqueue
  · next hkept =>
    intro c' rest hqueue
    cases hfirst : l.queue with
    | nil =>
      -- Nobody is before the new claim, so it is the holders that keep it out.
      have hsingle : l.queue ++ [c] = c' :: rest := hqueue
      rw [hfirst] at hsingle
      obtain ⟨rfl, -⟩ := List.cons.inj hsingle
      rw [hfirst, List.isEmpty_nil, Bool.true_and] at hkept
      exact Bool.eq_false_iff.2 hkept
    | cons d ds =>
      have hlonger : l.queue ++ [c] = c' :: rest := hqueue
      rw [hfirst, List.cons_append] at hlonger
      obtain ⟨rfl, -⟩ := List.cons.inj hlonger
      exact h _ ds hfirst

theorem isSettled_release (l : Lock) (c : Claim) : (l.release c).1.IsSettled :=
  isSettled_settleFrom _ _

theorem isSettled_withdraw (l : Lock) (c : Claim) : (l.withdraw c).1.IsSettled := by
  unfold withdraw
  split
  · exact isSettled_settleFrom _ _
  · exact isSettled_release l c

/-- Whoever waits is kept out by somebody. -/
theorem IsSettled.exists_holder (h : l.IsSettled) {t : TaskId} (hwaits : l.isWaiting t = true) :
    ∃ c, c ∈ l.holders := by
  obtain ⟨d, hd, -⟩ := List.any_eq_true.1 hwaits
  cases hqueue : l.queue with
  | nil =>
    rw [hqueue] at hd
    cases hd
  | cons c rest =>
    have hkept := h c rest hqueue
    cases hholders : l.holders with
    | cons c' others => exact ⟨c', List.mem_cons_self⟩
    | nil =>
      rw [hholders] at hkept
      cases haccess : c.access <;> rw [haccess] at hkept <;> cases hkept

end Lock

namespace Machine

variable {A : Application}

/-! ### Steps -/

/-- The locks of all buses are settled. -/
def Buses.Settled (g : Buses) : Prop := ∀ b bs, g b = some bs → bs.lock.IsSettled

section Settled

variable {w : World A} {t : TaskId} {b : BusId} {g g' : Buses} {k k' : Core A} {s s' : State A}

theorem Buses.Settled.onLock {f : Lock → Lock} (h : g.Settled)
    (hf : ∀ l, l.IsSettled → (f l).IsSettled) : (g.onLock b f).Settled := by
  intro c bs hbs
  by_cases hc : c = b
  · subst hc
    rw [Buses.onLock, Function.update_self] at hbs
    obtain ⟨old, hold, rfl⟩ := Option.map_eq_some_iff.1 hbs
    exact hf _ (h c old hold)
  · rw [Buses.onLock, Function.update_of_ne hc] at hbs
    exact h c bs hbs

theorem Buses.Settled.setListeners (h : g.Settled) (set : List ListenerId) :
    (g.setListeners b set).Settled := by
  intro c bs hbs
  by_cases hc : c = b
  · subst hc
    rw [Buses.setListeners, Function.update_self] at hbs
    obtain ⟨old, hold, rfl⟩ := Option.map_eq_some_iff.1 hbs
    exact h c old hold
  · rw [Buses.setListeners, Function.update_of_ne hc] at hbs
    exact h c bs hbs

theorem Buses.Settled.release (h : g.Settled) (c : Claim) : (g.release b c).Settled :=
  h.onLock fun l _ => l.isSettled_release c

theorem Buses.Settled.withdraw (h : g.Settled) (c : Option (BusId × Claim)) :
    (g.withdraw c).Settled := by
  cases c with
  | none => exact h
  | some bc => exact h.onLock fun l _ => l.isSettled_withdraw bc.2

theorem Buses.Settled.endPasses (h : g.Settled) (ps : List Pass) : (g.endPasses t ps).Settled := by
  induction ps generalizing g with
  | nil => exact h
  | cons p rest ih => exact ih (h.release _)

/-- **A step leaves all locks settled.** -/
theorem Step.settled (hstep : Step w t g k g' k') (h : g.Settled) : g'.Settled := by
  cases hstep with
  | goes => exact h
  | records => exact h
  | looks => exact h
  | enters => exact h
  | begins => exact h
  | copies => exact h
  | endsNothing => exact h
  | wantsToBegin => exact h.onLock fun l hl => hl.ask _
  | wantsToRead => exact h.onLock fun l hl => hl.ask _
  | wantsToEdit => exact h.onLock fun l hl => hl.ask _
  | reads => exact h.release _
  | replaces => exact (h.setListeners _).release _
  | ends => exact h.release _
  | leaves => exact (h.withdraw _).endPasses _
  | finishes => exact (h.withdraw _).endPasses _

theorem State.advance_settled (hadvance : s.advance w t = some s') (h : s.bus.Settled) :
    s'.bus.Settled := by
  obtain ⟨k, k', -, -, hstep⟩ := (State.advance_stepped hadvance).own
  exact hstep.settled h

theorem State.start_settled (buses : Nat) (memory : A.Memory) :
    (State.start buses memory).bus.Settled := by
  intro b bs hbs
  rw [State.bus_start hbs]
  exact nofun

end Settled

/-! ### Who uses a bus -/

/-- A task waits to read or to change the listeners of a bus, or is in the middle of a change. -/
def Doing.IsAt (b : BusId) : Doing A → Prop
  | waiting (.beginning b' _) | waiting (.reading b' _) | waiting (.editing b' _ _)
  | waiting (.replacing b' _ _ _) => b' = b
  | _ => False

/-- A task delivers on a bus, or is about to read or to change its listeners. -/
def Core.Uses (b : BusId) (k : Core A) : Prop := (∃ p ∈ k.passes, p.bus = b) ∨ k.doing.IsAt b

section Uses

variable {b : BusId} {a : Access} {k : Core A}

theorem bus_eq_of_one_pos {b' : BusId} {a' : Access} (h : 0 < one b' a' b a) : b' = b := by
  by_contra hne
  rw [one_of_bus_ne hne] at h
  exact absurd h (Nat.lt_irrefl 0)

theorem exists_pass_of_heldBy_pos {ps : List Pass} (h : 0 < heldBy b ps a) :
    ∃ p ∈ ps, p.bus = b := by
  induction ps with
  | nil => exact absurd h (Nat.lt_irrefl 0)
  | cons p rest ih =>
    by_cases hb : p.bus = b
    · exact ⟨p, List.mem_cons_self, hb⟩
    · rw [heldBy_cons, one_of_bus_ne hb, Nat.zero_add] at h
      obtain ⟨q, hq, hqb⟩ := ih h
      exact ⟨q, List.mem_cons_of_mem p hq, hqb⟩

theorem Doing.isAt_of_pos {doing : Doing A} (h : 0 < doing.held b a + doing.wanted b a) :
    doing.IsAt b := by
  have hnothing : ¬ 0 < 0 + 0 := Nat.lt_irrefl 0
  cases doing with
  | waiting wait =>
    cases wait with
    | beginning b' next => exact bus_eq_of_one_pos ((Nat.zero_add _).subst h)
    | reading b' next => exact bus_eq_of_one_pos ((Nat.zero_add _).subst h)
    | editing b' e next => exact bus_eq_of_one_pos ((Nat.zero_add _).subst h)
    | replacing b' e copy next => exact bus_eq_of_one_pos h
    | _ => exact absurd h hnothing
  | _ => exact absurd h hnothing

/-- Whoever has a claim on a bus uses it. -/
theorem Core.uses_of_pos (h : 0 < k.held b a + k.wanted b a) : k.Uses b := by
  by_cases hpasses : 0 < heldBy b k.passes a
  · exact .inl (exists_pass_of_heldBy_pos hpasses)
  · refine .inr (Doing.isAt_of_pos (a := a) ?_)
    unfold Core.held Core.wanted at h
    omega

end Uses

namespace Execution

variable {w : World A} {x : Execution w} {t : TaskId} {b : BusId} {n : Nat}

/-- No lock ever holds anybody back without reason. -/
def IsFair (x : Execution w) : Prop := ∀ n, (x.state n).bus.Settled

/-- A claim on a bus belongs to a task that uses the bus. -/
theorem uses_of_holder {bs : BusState} {c : Claim} (hbs : (x.state n).bus b = some bs)
    (hc : c ∈ bs.lock.holders) : ∃ k, (x.state n).core c.task = some k ∧ k.Uses b := by
  have htotal := ((x.sound n).kept b bs hbs).total c
  have hcount : 0 < bs.lock.holders.count c := List.count_pos_iff.2 hc
  cases hk : (x.state n).core c.task with
  | none =>
    rw [heldIn, wantedIn, hk] at htotal
    simp only [Option.map_none, Option.getD_none] at htotal
    omega
  | some k =>
    rw [heldIn, wantedIn, hk] at htotal
    simp only [Option.map_some, Option.getD_some] at htotal
    exact ⟨k, rfl, Core.uses_of_pos (a := c.access) (by omega)⟩

/-- **Whoever waits to change the listeners of a bus waits for another task that uses it**, unless the
task is part of a delivery on the bus itself. -/
theorem kept_waiting {e : Edit} {next : Bool → Program A Outcome} {calls : Calls A}
    {passes : List Pass} {bs : BusState} (hfair : x.IsFair)
    (hk : (x.state n).core t = some ⟨.waiting (.editing b e next), calls, passes⟩)
    (houtside : ∀ q ∈ passes, q.bus ≠ b) (hbs : (x.state n).bus b = some bs)
    (hwaits : bs.lock.isWaiting t = true) :
    ∃ u k, u ≠ t ∧ (x.state n).core u = some k ∧ k.Uses b := by
  obtain ⟨c, hc⟩ := (hfair n b bs hbs).exists_holder hwaits
  obtain ⟨k, hcore, huses⟩ := uses_of_holder hbs hc
  refine ⟨c.task, k, fun htask => ?_, hcore, huses⟩
  -- The only claim of the task itself is to write, and it is in the queue.
  have hbooks := (x.sound n).kept b bs hbs
  have hheldBy : ∀ a, heldBy b passes a = 0 := by
    intro a
    by_contra hne
    obtain ⟨q, hq, hqb⟩ := exists_pass_of_heldBy_pos (Nat.pos_of_ne_zero hne)
    exact houtside q hq hqb
  have htotal : ∀ a, bs.lock.holders.count ⟨t, a⟩ + bs.lock.queue.count ⟨t, a⟩ = one b .write b a := by
    intro a
    rw [hbooks.total, heldIn, wantedIn, hk]
    simp only [Option.map_some, Option.getD_some, Core.held, Core.wanted, Doing.held, Doing.wanted,
      hheldBy, Nat.zero_add]
  have hread := htotal .read
  have hwrite := htotal .write
  rw [one_of_access_ne (by decide)] at hread
  rw [one_self] at hwrite
  have hqueued : 0 < bs.lock.queue.count ⟨t, .write⟩ := by
    obtain ⟨⟨u, a⟩, hd, hu⟩ := List.any_eq_true.1 hwaits
    obtain rfl : u = t := of_decide_eq_true hu
    have hpos := List.count_pos_iff.2 hd
    cases a with
    | read => omega
    | write => exact hpos
  have hheld : 0 < bs.lock.holders.count c := List.count_pos_iff.2 hc
  obtain ⟨u, a⟩ := c
  obtain rfl : u = t := htask
  cases a <;> omega

end Execution

end Machine

end Orchestra
