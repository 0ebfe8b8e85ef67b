import Mathlib.Logic.Relation
import Orchestra.Proofs.Snapshots

/-!
# Executions

An execution is what tasks do when nothing is known about whose turn it is.  Nor is it known how locks
choose among the claims on them: between any two steps a lock may grant and hold back whatever it likes,
as long as a writer excludes everybody else.

* `Happens` — a task takes its turn, or something happens that is nobody's turn;
* `Execution` — from the start on, one thing after another;
* `Execution.core_succ` — a task that has been started is there after the next step;
* `Execution.core_cases` — how a task comes to what it is doing after the next step;
* `Execution.edit`, `Execution.edits` — the changes to a bus in the order in which they take effect;
* `Execution.sound` — the invariant of the buses holds throughout;
* `Execution.listeners_eq` — the listeners are what the changes have made of nobody;
* `State.tick_steps`, `State.run_steps` — what the clock and the scheduler do, they do step by step;
* `State.run_happens` — what the scheduler does is part of an execution.
-/

namespace Orchestra.Machine

variable {A : Application}

/-- The invariant of the buses, in a state. -/
def State.Sound (s : State A) : Prop := Machine.Sound s.bus s.core

/-- One thing happens. -/
inductive Happens (w : World A) : Option TaskId → State A → State A → Prop where
  /-- A task takes a step. -/
  | turn {t : TaskId} {s s' : State A} : s.advance w t = some s' → Happens w (some t) s s'
  /-- A task that was told to end does so, whatever it is doing. -/
  | stop {t : TaskId} {s : State A} {k : Task A} : s.tasks[t]? = some k → k.aborted = true →
      k.status.doing ≠ .ended → Happens w none s (s.finish t .aborted)
  /-- A task that has ended is given a program, with or without a limit. -/
  | commission {t : TaskId} {s s' : State A} {p : Program A Outcome}
      {calls : Calls A} : s.core t = some ⟨.ended, [], []⟩ →
      s'.core t = some ⟨.running p, calls, []⟩ → (∀ f ∈ calls, f.1 = 0) →
      (∀ u, u ≠ t → s'.core u = s.core u) → s'.bus = s.bus → Happens w none s s'
  /-- Something that is no task's doing.  The lock of a bus may grant and hold back claims. -/
  | elsewhere {s s' : State A} : s'.core = s.core →
      (∀ b, s'.bus b = s.bus b ∨ ∃ bs l, s.bus b = some bs ∧ s'.bus b = some { bs with lock := l } ∧
        l.Books (heldIn s.core b) (wantedIn s.core b)) →
      Happens w none s s'

/-- An execution. -/
structure Execution (w : World A) where
  state : Nat → State A
  turn : Nat → Option TaskId
  start : ∃ buses memory, state 0 = State.start buses memory
  happens : ∀ n, Happens w (turn n) (state n) (state (n + 1))

/-! ### The invariant holds throughout -/

section Sound

variable {w : World A} {t : TaskId} {s s' : State A}

theorem State.Stepped.spares (h : s.Stepped w t s') : Cores.Spares s.core t s'.core := by
  intro u hu
  rcases h.others u hu with hsame | ⟨hnone, job, hnew⟩
  · exact .inl hsame
  · exact .inr ⟨hnone, w.job job, hnew⟩

theorem State.Stepped.sound (h : s.Stepped w t s') (hs : s.Sound) : s'.Sound := by
  obtain ⟨k, k', hk, hk', hstep⟩ := h.own
  exact Machine.Sound.step hs hk hk' hstep h.spares

/-- A program given to a task that has ended finds the buses as they are. -/
theorem State.Sound.commission {p : Program A Outcome}
    {calls : Calls A} (hs : s.Sound)
    (hk : s.core t = some ⟨.ended, [], []⟩) (hk' : s'.core t = some ⟨.running p, calls, []⟩)
    (hdepth : ∀ f ∈ calls, f.1 = 0) (hothers : ∀ u, u ≠ t → s'.core u = s.core u)
    (hbus : s'.bus = s.bus) : s'.Sound := by
  have hspares : Cores.Spares s.core t s'.core := fun u hu => .inl (hothers u hu)
  have hcores : ∀ u k, s'.core u = some k → u ≠ t ∧ s.core u = some k ∨
      k = ⟨.running p, calls, []⟩ := by
    intro u k hu
    by_cases heq : u = t
    · subst heq
      exact .inr (Option.some.inj (hu.symm.trans hk'))
    · exact .inl ⟨heq, hothers u heq ▸ hu⟩
  refine ⟨fun b => ?_, fun b set hset => ?_, fun u k hu => ?_, fun u k hu => ?_⟩
  · rw [hspares.heldIn hk', hspares.wantedIn hk', hbus]
    have hkept := hs.kept b
    rwa [heldIn_eq_charge hk, wantedIn_eq_charge hk] at hkept
  · rw [hbus] at hset
    exact hs.nodup b set hset
  · rw [hbus]
    rcases hcores u k hu with ⟨-, hold⟩ | rfl
    · exact hs.current u k hold
    · exact Core.current_begun p calls s.bus
  · rcases hcores u k hu with ⟨-, hold⟩ | rfl
    · exact hs.neat u k hold
    · refine ⟨List.pairwise_of_forall_mem_list fun m hm n hn => ?_, fun f hf => ?_, nofun⟩
      · obtain ⟨f, hf, rfl⟩ := List.mem_map.1 hm
        obtain ⟨f', hf', rfl⟩ := List.mem_map.1 hn
        exact Nat.le_of_eq ((hdepth f' hf').trans (hdepth f hf).symm)
      · rw [hdepth f hf]
        exact Nat.zero_le _

/-- Something that is no task's doing spares the listeners. -/
theorem State.listeners_of_regrant
    (hbus : ∀ b, s'.bus b = s.bus b ∨ ∃ bs l, s.bus b = some bs ∧
      s'.bus b = some { bs with lock := l } ∧ l.Books (heldIn s.core b) (wantedIn s.core b)) :
    s'.bus.listeners = s.bus.listeners := by
  funext b
  rcases hbus b with hsame | ⟨bs, l, hold, hnew, -⟩
  · rw [Buses.listeners, Buses.listeners, hsame]
  · rw [Buses.listeners_of_bus hold, Buses.listeners_of_bus hnew]

/-- Locks that keep the books may do as they like. -/
theorem State.Sound.regrant (hs : s.Sound) (hcore : s'.core = s.core)
    (hbus : ∀ b, s'.bus b = s.bus b ∨ ∃ bs l, s.bus b = some bs ∧
      s'.bus b = some { bs with lock := l } ∧ l.Books (heldIn s.core b) (wantedIn s.core b)) :
    s'.Sound := by
  have hlisteners := State.listeners_of_regrant hbus
  refine ⟨fun b bs hbs => ?_, fun b set hset => ?_, fun u k hu => ?_, fun u k hu => ?_⟩
  · rw [hcore]
    rcases hbus b with hsame | ⟨old, l, -, hnew, hbooks⟩
    · exact hs.kept b bs (hsame ▸ hbs)
    · obtain rfl := Option.some.inj (hnew.symm.trans hbs)
      exact hbooks
  · rw [hlisteners] at hset
    exact hs.nodup b set hset
  · rw [hcore] at hu
    have hcurrent := hs.current u k hu
    exact ⟨fun p hp => by rw [hlisteners, hcurrent.passes p hp],
      fun b e copy next heq => by rw [hlisteners, hcurrent.copy b e copy next heq]⟩
  · rw [hcore] at hu
    exact hs.neat u k hu

theorem Happens.sound {o : Option TaskId} (h : Happens w o s s') (hs : s.Sound) : s'.Sound := by
  cases h with
  | turn hadvance => exact (State.advance_stepped hadvance).sound hs
  | @stop t _ k hk _ hended =>
    have hstepped : s.Stepped w t (s.finish t .aborted) := State.finish_stepped .aborted hk hended
    exact hstepped.sound hs
  | commission hk hk' hdepth hothers hbus => exact hs.commission hk hk' hdepth hothers hbus
  | elsewhere hcore hbus => exact hs.regrant hcore hbus

theorem State.core_start {buses : Nat} {memory : A.Memory} {u : TaskId} {k : Core A}
    (h : (State.start buses memory).core u = some k) : k = ⟨.ended, [], []⟩ := by
  cases u with
  | zero => exact (Option.some.inj h).symm
  | succ u => cases h

theorem State.bus_start {buses : Nat} {memory : A.Memory} {b : BusId} {bs : BusState}
    (h : (State.start buses memory).bus b = some bs) : bs = {} := by
  have hmem : bs ∈ List.replicate buses ({} : BusState) := List.mem_of_getElem? h
  exact List.eq_of_mem_replicate hmem

theorem State.start_sound (buses : Nat) (memory : A.Memory) :
    (State.start buses memory).Sound := by
  have hheld : ∀ b c, heldIn (State.start buses memory).core b c = 0 := by
    intro b c
    rw [heldIn]
    cases hk : (State.start buses memory).core c.task with
    | none => rfl
    | some k => rw [core_start hk]; rfl
  have hwanted : ∀ b c, wantedIn (State.start buses memory).core b c = 0 := by
    intro b c
    rw [wantedIn]
    cases hk : (State.start buses memory).core c.task with
    | none => rfl
    | some k => rw [core_start hk]; rfl
  refine ⟨fun b bs hbs => ?_, fun b set hset => ?_, fun u k hu => ?_, fun u k hu => ?_⟩
  · obtain rfl := bus_start hbs
    exact ⟨exclusive_nil, fun c => by rw [hheld, hwanted]; rfl, fun c => by rw [hheld]; exact Nat.zero_le _⟩
  · obtain ⟨bs, hbs, rfl⟩ := Option.map_eq_some_iff.1 hset
    rw [bus_start hbs]
    exact List.nodup_nil
  · rw [core_start hu]
    exact Core.current_ended _
  · rw [core_start hu]
    exact Core.neat_ended

end Sound

/-! ### The changes to a bus -/

namespace Execution

variable {w : World A} (x : Execution w) (b : BusId)

/-- The listeners of a bus after `n` steps. -/
def listeners (n : Nat) : List ListenerId := (x.state n).listenersOf b

/-- The change to a bus that takes effect with the next step after `n` steps. -/
def edit (n : Nat) : Option Edit := do
  let t ← x.turn n
  let k ← (x.state n).core t
  let k' ← (x.state (n + 1)).core t
  k.doing.edits b k'.doing

/-- The changes to a bus in the first `n` steps. -/
def edits (n : Nat) : List Edit := (List.range n).filterMap (x.edit b)

/-- **The invariant of the buses holds throughout.** -/
theorem sound (n : Nat) : (x.state n).Sound := by
  induction n with
  | zero =>
    obtain ⟨buses, memory, hstart⟩ := x.start
    rw [hstart]
    exact State.start_sound buses memory
  | succ n ih => exact (x.happens n).sound ih

/-- Every list of listeners is a set. -/
theorem nodup (n : Nat) : (x.listeners b n).Nodup := by
  rw [listeners, State.listenersOf]
  cases hb : (x.state n).buses[b]? with
  | none => exact List.nodup_nil
  | some bs =>
    have hset : (x.state n).bus.listeners b = some bs.listeners := Buses.listeners_of_bus hb
    exact (x.sound n).nodup b _ hset

theorem listeners_def (n : Nat) : x.listeners b n = ((x.state n).bus.listeners b).getD [] := rfl

variable {x b}

/-- The step of a turn. -/
theorem advance_of_turn {n : Nat} {t : TaskId} (h : x.turn n = some t) :
    (x.state n).advance w t = some (x.state (n + 1)) := by
  have hhappens := x.happens n
  rw [h] at hhappens
  cases hhappens with
  | turn hadvance => exact hadvance

/-- What is known of a turn. -/
theorem stepped {n : Nat} {t : TaskId} (h : x.turn n = some t) :
    (x.state n).Stepped w t (x.state (n + 1)) :=
  State.advance_stepped (advance_of_turn h)

/-- Task `t` changes a bus: it holds the lock, alone; it replaces the listeners of the moment; and it
goes on with whether that made a difference. -/
structure Changes (x : Execution w) (b : BusId) (n : Nat) (t : TaskId) (e : Edit) : Prop where
  turn : x.turn n = some t
  alone : ∃ bs, (x.state n).bus b = some bs ∧ bs.lock.holders = [⟨t, .write⟩]
  listeners : x.listeners b (n + 1) = e.apply (x.listeners b n)
  answer : ∃ copy next calls passes,
    (x.state n).core t = some ⟨.waiting (.replacing b e copy next), calls, passes⟩ ∧
    (x.state (n + 1)).core t
      = some ⟨.running (next (decide (x.listeners b (n + 1) ≠ x.listeners b n))), calls, passes⟩

theorem edit_eq_some {n : Nat} {e : Edit} (h : x.edit b n = some e) :
    ∃ t k k', x.turn n = some t ∧ (x.state n).core t = some k ∧ (x.state (n + 1)).core t = some k' ∧
      k.doing.edits b k'.doing = some e := by
  obtain ⟨t, ht, h⟩ := Option.bind_eq_some_iff.1 h
  obtain ⟨k, hk, h⟩ := Option.bind_eq_some_iff.1 h
  obtain ⟨k', hk', h⟩ := Option.bind_eq_some_iff.1 h
  exact ⟨t, k, k', ht, hk, hk', h⟩

theorem edit_of_turn {n : Nat} {t : TaskId} {k k' : Core A} (ht : x.turn n = some t)
    (hk : (x.state n).core t = some k) (hk' : (x.state (n + 1)).core t = some k') :
    x.edit b n = k.doing.edits b k'.doing := by
  rw [edit, ht, Option.bind_eq_bind, Option.bind_some, hk, Option.bind_eq_bind, Option.bind_some, hk']
  rfl

/-- The step of the task whose turn it is. -/
theorem step_of_turn {n : Nat} {t : TaskId} {k k' : Core A} (ht : x.turn n = some t)
    (hk : (x.state n).core t = some k) (hk' : (x.state (n + 1)).core t = some k') :
    Step w t (x.state n).bus k (x.state (n + 1)).bus k' := by
  obtain ⟨c, c', hc, hc', hstep⟩ := (stepped ht).own
  obtain rfl := Option.some.inj (hc.symm.trans hk)
  obtain rfl := Option.some.inj (hc'.symm.trans hk')
  exact hstep

/-- How a task comes to what it is doing after the next step: it has not had its turn, or it has taken a
step, or it has just been given something to do, or it has ended. -/
theorem core_cases (x : Execution w) {n : Nat} {t : TaskId} {k' : Core A}
    (hk' : (x.state (n + 1)).core t = some k') :
    (x.turn n ≠ some t ∧ (x.state n).core t = some k') ∨
      (∃ k, x.turn n = some t ∧ (x.state n).core t = some k ∧
        Step w t (x.state n).bus k (x.state (n + 1)).bus k') ∨
      ((x.state n).core t = none ∧ ∃ job, k' = ⟨.running (w.job job), [], []⟩) ∨
      ((x.state n).core t = some ⟨.ended, [], []⟩ ∧
        ∃ p calls, k' = ⟨.running p, calls, []⟩ ∧ ∀ f ∈ calls, f.1 = 0) ∨
      k' = ⟨.ended, [], []⟩ := by
  have hhappens := x.happens n
  generalize x.turn n = o at hhappens
  generalize x.state n = s at hhappens
  generalize x.state (n + 1) = s' at hhappens hk'
  have hothers : ∀ u, u ≠ t → s.Stepped w u s' → s.core t = some k' ∨
      (s.core t = none ∧ ∃ job, k' = ⟨.running (w.job job), [], []⟩) := by
    intro u hu h
    rcases h.others t (Ne.symm hu) with hsame | ⟨hnone, job, hnew⟩
    · exact .inl (hsame ▸ hk')
    · exact .inr ⟨hnone, job, Option.some.inj (hk'.symm.trans hnew)⟩
  cases hhappens with
  | @turn u _ _ hadvance =>
    have hstepped := State.advance_stepped hadvance
    by_cases hu : u = t
    · subst hu
      obtain ⟨c, c', hc, hc', hstep⟩ := hstepped.own
      obtain rfl := Option.some.inj (hc'.symm.trans hk')
      exact .inr (.inl ⟨c, rfl, hc, hstep⟩)
    · rcases hothers u hu hstepped with hsame | hnew
      · exact .inl ⟨fun heq => hu (Option.some.inj heq), hsame⟩
      · exact .inr (.inr (.inl hnew))
  | @stop u _ ku hku _ hended =>
    by_cases hu : u = t
    · subst hu
      have hend := (State.finish_core .aborted hku).symm.trans hk'
      exact .inr (.inr (.inr (.inr (Option.some.inj hend).symm)))
    · rcases hothers u hu (State.finish_stepped .aborted hku hended) with hsame | hnew
      · exact .inl ⟨nofun, hsame⟩
      · exact .inr (.inr (.inl hnew))
  | @commission u _ _ p calls hu hu' hdepth hsame _ =>
    by_cases heq : t = u
    · subst heq
      refine .inr (.inr (.inr (.inl ⟨hu, p, calls, ?_, hdepth⟩)))
      exact Option.some.inj (hk'.symm.trans hu')
    · exact .inl ⟨nofun, (hsame t heq).symm.trans hk'⟩
  | elsewhere hcore _ => exact .inl ⟨nofun, by rw [← hcore, hk']⟩

/-- A task that has been started is there ever after. -/
theorem core_succ (x : Execution w) {n : Nat} {t : TaskId} {k : Core A}
    (hk : (x.state n).core t = some k) : ∃ k', (x.state (n + 1)).core t = some k' := by
  have hhappens := x.happens n
  generalize x.turn n = o at hhappens
  generalize x.state n = s at hhappens hk
  generalize x.state (n + 1) = s' at hhappens ⊢
  have hstarted : ∀ {u : TaskId}, s.Stepped w u s' → ∃ k', s'.core t = some k' := by
    intro u h
    by_cases hu : t = u
    · obtain ⟨-, k', -, hk', -⟩ := h.own
      exact ⟨k', hu ▸ hk'⟩
    · rcases h.others t hu with hsame | ⟨hnone, -⟩
      · exact ⟨k, hsame.trans hk⟩
      · cases hnone.symm.trans hk
  cases hhappens with
  | turn hadvance => exact hstarted (State.advance_stepped hadvance)
  | stop hku _ hended => exact hstarted (State.finish_stepped .aborted hku hended)
  | @commission u _ _ p calls hu hu' _ hsame _ =>
    by_cases heq : t = u
    · exact ⟨_, heq ▸ hu'⟩
    · exact ⟨k, (hsame t heq).trans hk⟩
  | elsewhere hcore _ => exact ⟨k, hcore ▸ hk⟩

/-- **Every change is made alone, to the listeners of the moment.** -/
theorem changes_of_edit {n : Nat} {e : Edit} (h : x.edit b n = some e) : ∃ t, x.Changes b n t e := by
  obtain ⟨t, k, k', ht, hk, hk', hedit⟩ := edit_eq_some h
  have hsound := x.sound n
  obtain ⟨copy, next, hdoing, rfl, hnext⟩ := (step_of_turn ht hk hk').listeners_of_edit hedit
  have hcopy := (hsound.current t k hk).copy b e copy next hdoing
  rw [hcopy, Option.map_some] at hnext
  have hbefore : x.listeners b n = copy := by rw [listeners_def, hcopy, Option.getD_some]
  have hafter : x.listeners b (n + 1) = e.apply copy := by
    rw [listeners_def, hnext, Option.getD_some]
  refine ⟨t, ht, ?_, by rw [hbefore, hafter], copy, next, k.calls, k.passes, ?_, ?_⟩
  · obtain ⟨bs, hbs, -⟩ := Option.map_eq_some_iff.1 hcopy
    have hbooks := hsound.kept b bs hbs
    have hheld := Sound.heldIn_pos_of_copy hk hdoing
    exact ⟨bs, hbs, hbooks.exclusive _ (hbooks.mem_holders hheld) rfl⟩
  · rw [hk, ← hdoing]
  · rw [hk', hbefore, hafter, ← Edit.changes_eq]

/-- Nothing else changes the listeners. -/
theorem listeners_of_none {n : Nat} (h : x.edit b n = none) :
    (x.state (n + 1)).bus.listeners b = (x.state n).bus.listeners b := by
  have hhappens := x.happens n
  generalize hturn : x.turn n = o at hhappens
  generalize hs : x.state n = s at hhappens ⊢
  generalize hs' : x.state (n + 1) = s' at hhappens ⊢
  cases hhappens with
  | @turn t _ _ hadvance =>
    obtain ⟨k, k', hk, hk', hstep⟩ := (State.advance_stepped hadvance).own
    refine hstep.listeners_of_none ?_
    rwa [← edit_of_turn hturn (hs ▸ hk) (hs' ▸ hk')]
  | @stop t _ k hk _ hended =>
    have hstepped : s.Stepped w t (s.finish t .aborted) := State.finish_stepped .aborted hk hended
    obtain ⟨c, c', hc, hc', hstep⟩ := hstepped.own
    obtain rfl := Option.some.inj ((State.finish_core .aborted hk).symm.trans hc')
    exact hstep.listeners_of_none (Doing.edits_ended c.doing)
  | commission _ _ _ _ hbus => rw [hbus]
  | elsewhere _ hbus => rw [State.listeners_of_regrant hbus]

/-- **The listeners are what the changes have made of nobody**, one after another. -/
theorem listeners_eq (x : Execution w) (b : BusId) (n : Nat) :
    x.listeners b n = (x.edits b n).foldl (fun set e => e.apply set) [] := by
  induction n with
  | zero =>
    obtain ⟨buses, memory, hstart⟩ := x.start
    rw [listeners, State.listenersOf, hstart]
    cases hb : (State.start buses memory).buses[b]? with
    | none => rfl
    | some bs =>
      obtain rfl := State.bus_start (A := A) hb
      rfl
  | succ n ih =>
    rw [edits, List.range_succ, List.filterMap_append, List.foldl_append]
    show _ = List.foldl _ ((x.edits b n).foldl (fun set e => e.apply set) []) _
    rw [← ih]
    cases hedit : x.edit b n with
    | none =>
      rw [listeners_def, listeners_of_none hedit]
      simp [hedit, listeners_def]
    | some e =>
      obtain ⟨t, hchanges⟩ := changes_of_edit hedit
      rw [hchanges.listeners]
      simp [hedit]

/-- Who is registered after the next step: whoever is added with it, and whoever was registered and is not
removed. -/
theorem mem_listeners_succ {n : Nat} {l : ListenerId} : l ∈ x.listeners b (n + 1) ↔
    x.edit b n = some (.add l) ∨ l ∈ x.listeners b n ∧ x.edit b n ≠ some (.remove l) := by
  cases hedit : x.edit b n with
  | none =>
    rw [listeners_def, listeners_of_none hedit]
    simp [listeners_def]
  | some e =>
    obtain ⟨t, hchanges⟩ := changes_of_edit hedit
    rw [hchanges.listeners, Edit.mem_apply_iff, ne_eq, ne_eq, Option.some_inj, Option.some_inj]

/-- Nobody is registered who has not been added since he was not. -/
theorem not_mem_mono {m n : Nat} {l : ListenerId} (hmn : m ≤ n) (hm : l ∉ x.listeners b m)
    (h : ∀ k, m ≤ k → k < n → x.edit b k ≠ some (.add l)) : l ∉ x.listeners b n := by
  induction hmn with
  | refl => exact hm
  | @step n hmn ih =>
    rw [mem_listeners_succ]
    rintro (hadd | ⟨hl, -⟩)
    · exact h n hmn (Nat.lt_succ_self n) hadd
    · exact ih (fun k hk hkn => h k hk (Nat.lt_succ_of_lt hkn)) hl

/-- Whoever is registered stays so until he is removed. -/
theorem mem_mono {m n : Nat} {l : ListenerId} (hmn : m ≤ n) (hm : l ∈ x.listeners b m)
    (h : ∀ k, m ≤ k → k < n → x.edit b k ≠ some (.remove l)) : l ∈ x.listeners b n := by
  induction hmn with
  | refl => exact hm
  | @step n hmn ih =>
    have hl := ih fun k hk hkn => h k hk (Nat.lt_succ_of_lt hkn)
    exact mem_listeners_succ.2 (.inr ⟨hl, h n hmn (Nat.lt_succ_self n)⟩)

/-- Nobody is registered who has not been added. -/
theorem not_mem_of_unadded {n : Nat} {l : ListenerId}
    (h : ∀ m, m < n → x.edit b m ≠ some (.add l)) : l ∉ x.listeners b n := by
  have hstart : l ∉ x.listeners b 0 := by
    rw [listeners_eq]
    exact List.not_mem_nil
  exact not_mem_mono (Nat.zero_le n) hstart fun k _ hkn => h k hkn

/-- Nothing is changed while somebody else holds the lock. -/
theorem edit_eq_none_of_reader {n : Nat} {u : TaskId} {bs : BusState}
    (hbs : (x.state n).bus b = some bs) (hu : ⟨u, .read⟩ ∈ bs.lock.holders) : x.edit b n = none := by
  cases hedit : x.edit b n with
  | none => rfl
  | some e =>
    obtain ⟨t, hchanges⟩ := changes_of_edit hedit
    obtain ⟨bs', hbs', hholders⟩ := hchanges.alone
    obtain rfl := Option.some.inj (hbs.symm.trans hbs')
    rw [hholders] at hu
    cases List.mem_singleton.1 hu

/-- What a task delivers from is what is registered, and nobody can change it. -/
theorem edit_eq_none_of_pass {n : Nat} {t : TaskId} {k : Core A} {p : Pass}
    (hk : (x.state n).core t = some k) (hp : p ∈ k.passes) (hb : p.bus = b) :
    x.edit b n = none := by
  subst hb
  have hsound := x.sound n
  obtain ⟨bs, hbs, -⟩ := Option.map_eq_some_iff.1 ((hsound.current t k hk).passes p hp)
  have hbooks := hsound.kept p.bus bs hbs
  exact edit_eq_none_of_reader hbs (hbooks.mem_holders (Sound.heldIn_pos_of_pass hk hp))

end Execution

/-! ### The scheduler -/

namespace State

variable {w : World A} {s s' : State A}

/-- What touches neither cores nor buses. -/
theorem happens_of_same (hcore : s'.core = s.core) (hbuses : s'.buses = s.buses) :
    Happens w none s s' :=
  Happens.elsewhere hcore fun b => .inl (congrFun (bus_eq hbuses) b)

theorem stampFrames_calls (stamp : Nat) (frames : List (Frame A)) :
    (stampFrames stamp frames).1.map (fun f => (f.depth, f.caller))
      = frames.map fun f => (f.depth, f.caller) := by
  induction frames generalizing stamp with
  | nil => rfl
  | cons f rest ih =>
    rw [stampFrames]
    split
    · simp only [List.map_cons, ih (stamp + 1)]
    · simp only [List.map_cons, ih stamp]

theorem park_core (t : TaskId) (s : State A) : (s.park t).core = s.core := by
  unfold park
  split
  · next k hk =>
    split
    · next wait hstatus =>
      funext u
      by_cases hu : u = t
      · subst hu
        rw [core_of_task hk, core]
        dsimp only
        rw [List.getElem?_set_self (List.getElem?_eq_some_iff.1 hk).1, Option.map_some, Task.core,
          Task.core, stampFrames_calls, hstatus]
        rfl
      · rw [core, core]
        dsimp only
        rw [List.getElem?_set_ne (Ne.symm hu)]
    · rfl
  · rfl

theorem park_buses (t : TaskId) (s : State A) : (s.park t).buses = s.buses := by
  unfold park
  split
  · split <;> rfl
  · rfl

theorem happens_park (t : TaskId) (s : State A) : Happens w none s (s.park t) :=
  happens_of_same (park_core t s) (park_buses t s)

theorem core_deliverSignal (g : Signal) (s : State A) : (s.deliverSignal g).core = s.core := by
  have hdoing : ∀ status : Status A, (signalled g status).doing = status.doing := by
    intro status
    unfold signalled
    split <;> rfl
  unfold deliverSignal
  split
  · funext u
    rw [core_eq (wakeAll_tasks _ _), core, core, List.getElem?_map, Option.map_map]
    congr 1
    funext k
    rw [Function.comp_apply, Task.core, hdoing]
    rfl
  · rfl

theorem deliverSignal_buses (g : Signal) (s : State A) : (s.deliverSignal g).buses = s.buses := by
  unfold deliverSignal
  split
  · exact wakeAll_buses _ _
  · rfl

/-- **What happens when the clock moves** happens step by step: after the clock itself a task is woken, a signal
comes, or a token is cancelled. -/
theorem tick_steps {R : State A → State A → Prop} (htrans : ∀ {s₁ s₂ s₃}, R s₁ s₂ → R s₂ s₃ → R s₁ s₃)
    (hmoves : ∀ (s : State A) (now : Nat) (alarms : List Alarm), R s { s with now := now, alarms := alarms })
    (hwake : ∀ (s : State A) (t : TaskId), R s (s.wake t))
    (hsignal : ∀ (s : State A) (g : Signal), R s (s.deliverSignal g))
    (hcancel : ∀ (s : State A) (token : TokenId), R s (s.cancel token)) (h : s.tick = some s') : R s s' := by
  have hfire : ∀ (f : Firing) (s : State A), R s (s.fire f) := by
    intro f s
    unfold fire
    split
    · exact hmoves s s.now s.alarms
    · split
      · exact hwake s _
      · exact hsignal s _
      · exact hcancel s _
  have hfold : ∀ (es : List (Nat × Firing)) (s : State A), R s (es.foldl (fun s e => s.fire e.2) s) := by
    intro es
    induction es with
    | nil => exact fun s => hmoves s s.now s.alarms
    | cons e rest ih => exact fun s => htrans (hfire e.2 s) (ih _)
  obtain ⟨due, -, rfl⟩ := Option.map_eq_some_iff.1 h
  exact htrans (hmoves s _ _) (hfold _ _)

/-- The clock touches neither cores nor buses. -/
theorem tick_spares (h : s.tick = some s') : s'.core = s.core ∧ s'.buses = s.buses :=
  tick_steps (R := fun s s' => s'.core = s.core ∧ s'.buses = s.buses)
    (fun h h' => ⟨h'.1.trans h.1, h'.2.trans h.2⟩) (fun _ _ _ => ⟨rfl, rfl⟩)
    (fun s t => ⟨core_eq (wake_tasks s t), wake_buses s t⟩)
    (fun s g => ⟨core_deliverSignal g s, deliverSignal_buses g s⟩)
    (fun s token => ⟨core_eq (cancel_tasks s token), cancel_buses s token⟩) h

theorem happens_tick (h : s.tick = some s') : Happens w none s s' := by
  obtain ⟨hcore, hbuses⟩ := tick_spares h
  exact happens_of_same hcore hbuses

theorem happens_begin (t : TaskId) (s : State A) : Happens w none s (s.begin t) := by
  unfold begin
  split
  · next k hk =>
    split
    · exact happens_of_same rfl rfl
    · next hended =>
      split
      · next haborted =>
        refine Happens.stop hk haborted fun heq => ?_
        cases hstatus : k.status with
        | ended e => exact hended e hstatus
        | running p => rw [hstatus] at heq; cases heq
        | waiting wait stamp => rw [hstatus] at heq; cases heq
      · exact happens_of_same rfl rfl
  · exact happens_of_same rfl rfl

/-- What the scheduler does, it does step by step: a task goes on, is parked, is taken from those that are
ready or begins its turn, or the clock moves. -/
theorem run_steps {R : State A → State A → Prop}
    (hadvance : ∀ {t : TaskId} {s s' : State A}, s.advance w t = some s' → R s s')
    (hpark : ∀ (t : TaskId) (s : State A), R s (s.park t))
    (hready : ∀ (s : State A) (rest : List TaskId), R s { s with ready := rest })
    (hbegin : ∀ (t : TaskId) (s : State A), R s (s.begin t))
    (htick : ∀ {s s' : State A}, s.tick = some s' → R s s')
    (fuel : Nat) (current : Option TaskId) (s : State A) :
    Relation.ReflTransGen R s (s.run w fuel current) := by
  induction fuel generalizing current s with
  | zero => exact .refl
  | succ fuel ih =>
    unfold run
    split
    · exact .refl
    · split
      · next t =>
        split
        · next s' hgoes => exact .head (hadvance hgoes) (ih (some t) s')
        · exact .head (hpark t s) (ih none (s.park t))
      · split
        · next t s' hpick =>
          have htaken : R s s' := by
            unfold pick at hpick
            split at hpick
            · cases hpick
            · cases hpick
              exact hready s _
          exact .head htaken (.head (hbegin t s') (ih (some t) (s'.begin t)))
        · split
          · exact .refl
          · split
            · next s' hmoves => exact .head (htick hmoves) (ih none s')
            · exact .refl

/-- **What the scheduler does is part of an execution.** -/
theorem run_happens (w : World A) (fuel : Nat) (current : Option TaskId) (s : State A) :
    Relation.ReflTransGen (fun s s' => ∃ turn, Happens w turn s s') s (s.run w fuel current) := by
  exact run_steps (fun hadvance => ⟨_, .turn hadvance⟩) (fun t s => ⟨none, happens_park t s⟩)
    (fun s rest => ⟨none, happens_of_same rfl rfl⟩) (fun t s => ⟨none, happens_begin t s⟩)
    (fun htick => ⟨none, happens_tick htick⟩) fuel current s

/-- A program is performed by the main task once that has ended. -/
theorem perform_happens (w : World A) (p : Program A Outcome) (limit : Duration)
    (h : s.core mainTask = some ⟨.ended, [], []⟩) :
    Relation.ReflTransGen (fun s s' => ∃ turn, Happens w turn s s') s (s.perform w p limit) := by
  obtain ⟨k, hk, -⟩ := Option.map_eq_some_iff.1 h
  refine .head ⟨none, ?_⟩ (run_happens w patience (some mainTask) _)
  refine Happens.commission h (?_ : _ = some (⟨.running p, [(0, fun _ => .done (.ok ()))], []⟩ : Core A))
    (fun f hf => ?_) (fun u hu => ?_) rfl
  · rw [core]
    dsimp only
    rw [List.getElem?_set_self (List.getElem?_eq_some_iff.1 hk).1]
    rfl
  · rw [List.mem_singleton.1 hf]
  · rw [core, core]
    dsimp only
    rw [List.getElem?_set_ne (Ne.symm hu)]

end State

end Orchestra.Machine
