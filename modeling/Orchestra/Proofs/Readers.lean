import Orchestra.Proofs.Deadlock

/-!
# Who holds the lock of a bus to read

A lock that is held to read stands for a delivery in progress, or for somebody who has been let in and has not
had a turn since.

* `BusState.readers` — the tasks that hold the lock of a bus to read;
* `Execution.claims_of_running` — what a running task has to do with the lock of a bus;
* `Execution.IsLetIn` — a task has been granted the lock that it waits for, and has not gone on yet;
* `Execution.mem_readers_iff` — who holds the lock, in an orderly execution;
* `Execution.readers_length` — how often it is held.
-/

namespace Orchestra

variable {A : Application} {bs : BusState} {u : TaskId}

/-- The tasks that hold the lock of a bus to read. -/
def BusState.readers (bs : BusState) : List TaskId :=
  (bs.lock.holders.filter fun c => c.access = .read).map Claim.task

theorem BusState.mem_readers : u ∈ bs.readers ↔ ⟨u, .read⟩ ∈ bs.lock.holders := by
  rw [readers, List.mem_map]
  constructor
  · rintro ⟨⟨u', a⟩, hc, rfl⟩
    obtain ⟨hmem, haccess⟩ := List.mem_filter.1 hc
    obtain rfl : a = .read := of_decide_eq_true haccess
    exact hmem
  · intro hmem
    exact ⟨⟨u, .read⟩, List.mem_filter.2 ⟨hmem, decide_eq_true rfl⟩, rfl⟩

/-- If nobody holds the lock twice, each reader is there once. -/
theorem BusState.nodup_readers (h : ∀ u, bs.lock.holders.count ⟨u, .read⟩ ≤ 1) : bs.readers.Nodup := by
  have haccess : ∀ c ∈ bs.lock.holders.filter fun c => c.access = .read, c.access = .read :=
    fun c hc => of_decide_eq_true (List.mem_filter.1 hc).2
  refine List.Nodup.map_on (fun c hc c' hc' htask => ?_) (List.nodup_iff_count_le_one.2 fun c => ?_)
  · obtain ⟨u, a⟩ := c
    obtain ⟨u', a'⟩ := c'
    obtain rfl : a = .read := haccess _ hc
    obtain rfl : a' = .read := haccess _ hc'
    obtain rfl : u = u' := htask
    rfl
  · by_cases hc : c ∈ bs.lock.holders.filter fun c => c.access = .read
    · obtain ⟨u, a⟩ := c
      obtain rfl : a = .read := haccess _ hc
      exact Nat.le_trans (List.filter_sublist.count_le _) (h u)
    · rw [List.count_eq_zero_of_not_mem hc]
      exact Nat.zero_le 1

namespace Machine.Execution

variable {w : World A} {x : Execution w} {b : BusId} {n : Nat} {k : Core A}

/-- The claims of a task to read a bus: one for each of its deliveries there, and one if it waits. -/
theorem read_claims (hk : (x.state n).core u = some k) (hbs : (x.state n).bus b = some bs) :
    bs.lock.holders.count ⟨u, .read⟩ + bs.lock.queue.count ⟨u, .read⟩
        = (k.passes.map Pass.bus).count b + k.doing.wanted b .read ∧
      (k.passes.map Pass.bus).count b ≤ bs.lock.holders.count ⟨u, .read⟩ := by
  have hbooks := (x.sound n).kept b bs hbs
  have hheld : heldIn (x.state n).core b ⟨u, .read⟩ = (k.passes.map Pass.bus).count b := by
    rw [heldIn_of_core hk, Core.held, Doing.held_read, heldBy_read, Nat.zero_add]
  have hwanted : wantedIn (x.state n).core b ⟨u, .read⟩ = k.doing.wanted b .read := by
    rw [wantedIn, hk]
    rfl
  rw [← hheld, ← hwanted]
  exact ⟨hbooks.total _, hbooks.granted _⟩

/-- **A running task has the lock of a bus once for each of its deliveries there**, and waits for nothing. -/
theorem claims_of_running {p : Program A Outcome} {calls : Calls A} {passes : List Pass}
    (hk : (x.state n).core u = some ⟨.running p, calls, passes⟩) (hbs : (x.state n).bus b = some bs) :
    bs.lock.holders.count ⟨u, .read⟩ = (passes.map Pass.bus).count b ∧ ⟨u, .write⟩ ∉ bs.lock.holders ∧
      ∀ c ∈ bs.lock.queue, c.task ≠ u := by
  obtain ⟨htotal, hgranted⟩ := read_claims hk hbs
  have hwaits : ∀ c ∈ bs.lock.queue, c.task ≠ u := by
    rintro c hc rfl
    obtain ⟨k, hk', hwanted⟩ := wanted_of_queued hbs hc
    obtain rfl := Option.some.inj (hk.symm.trans hk')
    exact absurd hwanted (Nat.lt_irrefl 0)
  refine ⟨Nat.le_antisymm ?_ hgranted, fun hwrites => ?_, hwaits⟩
  · exact Nat.le_trans (Nat.le_add_right _ _) (Nat.le_of_eq htotal)
  · have hcount := List.count_pos_iff.2 hwrites
    have hnothing := ((x.sound n).kept b bs hbs).total ⟨u, .write⟩
    have hheldBy : heldBy b passes .write = 0 := by
      by_contra hne
      cases access_of_heldBy_pos (Nat.pos_of_ne_zero hne)
    rw [heldIn_of_core hk, wantedIn, hk, Core.held, hheldBy] at hnothing
    change _ = 0 at hnothing
    omega

/-- After `n` steps task `u` waits for the lock of a bus to read, has been granted it, and has not gone on
yet. -/
def IsLetIn (x : Execution w) (u : TaskId) (b : BusId) (n : Nat) : Prop :=
  ∃ k bs, (x.state n).core u = some k ∧ (x.state n).bus b = some bs ∧ 0 < k.doing.wanted b .read ∧
    bs.lock.isWaiting u = false

/-- Whoever waits to read a bus is not part of a delivery there. -/
theorem count_eq_zero_of_wanted (hx : x.IsOrderly) (hk : (x.state n).core u = some k)
    (hwanted : 0 < k.doing.wanted b .read) : (k.passes.map Pass.bus).count b = 0 := by
  have hwants : k.doing.WantsToRead b := by
    by_contra hnot
    exact absurd hwanted (Doing.wanted_read hnot ▸ Nat.lt_irrefl 0)
  refine List.count_eq_zero.2 fun hmem => ?_
  obtain ⟨p, hp, hb⟩ := List.mem_map.1 hmem
  exact ((orderly hx n hk).of_wantsToRead hwants).1 p hp hb

/-- Nobody holds the lock of a bus twice. -/
theorem count_readers_le (hx : x.IsOrderly) (hbs : (x.state n).bus b = some bs) (u : TaskId) :
    bs.lock.holders.count ⟨u, .read⟩ ≤ 1 := by
  by_cases hholds : (⟨u, .read⟩ : Claim) ∈ bs.lock.holders
  case neg =>
    rw [List.count_eq_zero_of_not_mem hholds]
    exact Nat.zero_le 1
  obtain ⟨k, hk, -⟩ : ∃ k, (x.state n).core u = some k ∧ k.Uses b := uses_of_holder hbs hholds
  obtain ⟨htotal, -⟩ := read_claims hk hbs
  have hpasses := List.nodup_iff_count_le_one.1 (orderly hx n hk).nodup b
  rcases Nat.eq_zero_or_pos (k.doing.wanted b .read) with hzero | hwanted
  · omega
  · obtain ⟨-, -, hone⟩ := Doing.wanted_unique hwanted hwanted
    have hnone := count_eq_zero_of_wanted hx hk hwanted
    omega

/-- **The lock of a bus is held to read by those who are part of a delivery there**, and by those who have been
let in. -/
theorem mem_readers_iff (hx : x.IsOrderly) (hbs : (x.state n).bus b = some bs) :
    u ∈ bs.readers ↔ (∃ m, x.Encloses u b m n) ∨ x.IsLetIn u b n := by
  rw [BusState.mem_readers]
  constructor
  · intro hholds
    obtain ⟨k, hk, -⟩ : ∃ k, (x.state n).core u = some k ∧ k.Uses b := uses_of_holder hbs hholds
    obtain ⟨htotal, -⟩ := read_claims hk hbs
    have hcount := List.count_pos_iff.2 hholds
    rcases Nat.eq_zero_or_pos (k.doing.wanted b .read) with hzero | hwanted
    · have hdelivers : 0 < (k.passes.map Pass.bus).count b := by omega
      obtain ⟨p, hp, rfl⟩ := List.mem_map.1 (List.count_pos_iff.1 hdelivers)
      obtain ⟨m, henc, -⟩ := (mem_passes_iff hx hk).1 hp
      exact .inl ⟨m, henc⟩
    · refine .inr ⟨k, bs, hk, hbs, hwanted, ?_⟩
      obtain ⟨-, -, hone⟩ := Doing.wanted_unique hwanted hwanted
      have hnone := count_eq_zero_of_wanted hx hk hwanted
      -- A task waits for one claim only, and this one has been granted.
      rw [Lock.isWaiting, List.any_eq_false]
      intro c hc heq
      obtain ⟨u', a⟩ := c
      obtain rfl : u' = u := of_decide_eq_true heq
      obtain ⟨k', hk', hwanted'⟩ : ∃ k, (x.state n).core u' = some k ∧ 0 < k.doing.wanted b a :=
        wanted_of_queued hbs hc
      obtain rfl := Option.some.inj (hk.symm.trans hk')
      obtain ⟨-, rfl, -⟩ := Doing.wanted_unique hwanted hwanted'
      have hqueued := List.count_pos_iff.2 hc
      omega
  · rintro (⟨m, henc⟩ | ⟨k, bs', hk, hbs', hwanted, hwaiting⟩)
    · obtain ⟨bs', hbs', hone, -⟩ := henc.readsOnce hx
      obtain rfl := Option.some.inj (hbs.symm.trans hbs')
      exact List.count_pos_iff.1 (hone ▸ Nat.zero_lt_one)
    · obtain rfl := Option.some.inj (hbs.symm.trans hbs')
      obtain ⟨-, -, hone⟩ := Doing.wanted_unique hwanted hwanted
      exact granted_of_wanted hk hone hbs hwaiting

/-- **The lock of a bus is held to read once for each delivery in progress**, and once for each task that has been
let in. -/
theorem readers_length (hx : x.IsOrderly) (hbs : (x.state n).bus b = some bs) :
    ∃ (deliveries : List (TaskId × Nat)) (guests : List TaskId),
      (deliveries.Nodup ∧ ∀ u m, (u, m) ∈ deliveries ↔ x.Encloses u b m n) ∧
      (guests.Nodup ∧ ∀ u, u ∈ guests ↔ x.IsLetIn u b n) ∧
      bs.readers.length = deliveries.length + guests.length := by
  classical
  have hnodup := BusState.nodup_readers (count_readers_le hx hbs)
  have hapart : ∀ u m, x.Encloses u b m n → ¬ x.IsLetIn u b n := by
    rintro u m henc ⟨k, -, hk, -, hwanted, -⟩
    have hnone := count_eq_zero_of_wanted hx hk hwanted
    exact List.count_eq_zero.1 hnone (List.mem_map_of_mem (henc.mem_passes hk))
  have hbegun : ∀ u, ∃ m, (∃ m, x.Encloses u b m n) → x.Encloses u b m n := by
    intro u
    by_cases henc : ∃ m, x.Encloses u b m n
    · exact ⟨henc.choose, fun _ => henc.choose_spec⟩
    · exact ⟨0, fun h => absurd h henc⟩
  choose begun hbegun using hbegun
  refine ⟨(bs.readers.filter fun u => ∃ m, x.Encloses u b m n).map fun u => (u, begun u),
    bs.readers.filter fun u => ¬ ∃ m, x.Encloses u b m n, ⟨?_, fun u m => ?_⟩, ⟨hnodup.filter _, fun u => ?_⟩, ?_⟩
  · exact (hnodup.filter _).map_on fun u _ u' _ heq => congrArg Prod.fst heq
  · rw [List.mem_map]
    constructor
    · rintro ⟨u', hu', heq⟩
      obtain ⟨rfl, rfl⟩ := Prod.mk.inj heq
      exact hbegun u' (of_decide_eq_true (List.mem_filter.1 hu').2)
    · intro henc
      have hreads := (mem_readers_iff hx hbs).2 (.inl ⟨m, henc⟩)
      refine ⟨u, List.mem_filter.2 ⟨hreads, decide_eq_true ⟨m, henc⟩⟩, ?_⟩
      rw [(hbegun u ⟨m, henc⟩).unique hx henc]
  · rw [List.mem_filter, mem_readers_iff hx hbs, decide_eq_true_iff]
    constructor
    · rintro ⟨henc | hlet, hnot⟩
      · exact absurd henc hnot
      · exact hlet
    · intro hlet
      exact ⟨.inr hlet, fun ⟨m, henc⟩ => hapart u m henc hlet⟩
  · rw [List.length_map, List.length_eq_length_filter_add fun u => decide (∃ m, x.Encloses u b m n)]
    simp only [decide_not]

end Machine.Execution

end Orchestra
