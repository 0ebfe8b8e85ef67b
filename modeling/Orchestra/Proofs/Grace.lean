import Orchestra.Proofs.Parting

/-!
# Who outlasts the grace period

A shutdown tells the workers to stop and waits for them, no longer than the grace period.  The wait is over at the
moment at which the last of them leaves, or else when the time is, and those are named who have not left until then.

* `Execution.Expires` — the clock comes to the end of a wait for a crew;
* `Execution.last_gone` — a crew that somebody waits for is not left alone for any time;
* `Execution.Separates` — who is named, given when each worker leaves; `separates_of_emptied`, `separates_of_overdue`
  — the two ways in which the wait is decided;
* `Execution.Disbands` — the course of it all; `disbands` — so it goes, step by step;
* `grace_separates` — the grace period separates the finished from the stuck.
-/

namespace Orchestra

open Machine

variable {A : Application} {w : World A}

namespace Machine.Execution

variable {x : Execution w} {t : TaskId} {token : TokenId} {crew : CrewId} {grace : Duration} {i j l m n e due : Nat}
  {ends : Nat × String → ℕ∞} {stuck : List String} {calls : Calls A} {passes : List Pass}

/-- The clock comes to the moment up to which task `t` waits for a crew, unless the task goes on before. -/
def Expires (x : Execution w) (t : TaskId) : Prop :=
  ∀ n crew due next calls passes, (x.state n).core t = some ⟨.waiting (.crew crew due next), calls, passes⟩ →
    ∃ m, n ≤ m ∧ (due ≤ (x.state m).now ∨ x.turn m = some t)

/-! ### The end of a wait -/

/-- **Whoever waits for a crew goes on at the moment at which the last worker leaves**: while nobody is left the
clock stands still. -/
theorem last_gone (hx : x.IsProper) (hknown : x.HiresKnown crew) (htime : x.KeepsTime t)
    {next : Bool → Program A Outcome} (hmn : m ≤ n)
    (hrests : x.Rests t ⟨.waiting (.crew crew due next), calls, passes⟩ m n) {c : CrewState}
    (hc : (x.state m).crews[crew]? = some c) (hclosed : c.closed = true) (hgone : (x.state n).staff crew = []) :
    (x.state n).now = (x.state m).now ∨ ∃ k, m ≤ k ∧ (x.state k).staff crew ≠ [] ∧
      (x.state (k + 1)).staff crew = [] ∧ (x.state n).now = (x.state (k + 1)).now := by
  induction hmn with
  | refl => exact .inl rfl
  | @step n hmn ih =>
    by_cases hstaff : (x.state n).staff crew = []
    · -- The task could have gone on before.
      have hready : ((x.state n).advance w t).isSome := by
        by_contra hnone
        rw [Option.not_isSome_iff_eq_none] at hnone
        exact (held_up hx hknown hmn hc hclosed (hrests.core n hmn (Nat.le_succ n)) hnone).1 hstaff
      rw [htime.stands n hready]
      refine ih ⟨fun a ha han => hrests.core a ha (Nat.le_succ_of_le han), fun d => ?_⟩ hstaff
      have hheard := hrests.heard d
      rw [heard_trans hmn (Nat.le_succ n)] at hheard
      exact (List.append_eq_nil_iff.1 hheard).1
    · exact .inr ⟨n, hmn, hstaff, hgone, rfl⟩

/-- When each worker that is on a crew's list after `i` steps leaves it. -/
def EndsAt (x : Execution w) (crew : CrewId) (i : Nat) (ends : Nat × String → ℕ∞) : Prop :=
  ∀ worker ∈ (x.state i).staff crew, x.LeavesAt crew i worker (ends worker)

/-- A wait for the workers there were after `i` steps, which is over after `n` steps and ends with some names,
separates those who leave in time from those who do not. -/
structure Separates (x : Execution w) (crew : CrewId) (i due : Nat) (ends : Nat × String → ℕ∞) (n : Nat)
    (stuck : List String) : Prop where
  /-- If everybody leaves before the time is over, nobody is named, and the wait is over with the last of them. -/
  finished : (∀ worker ∈ (x.state i).staff crew, ends worker < due) →
    stuck = [] ∧ ((x.state n).now : ℕ∞) = lastEnd ends (x.state i).now ((x.state i).staff crew)
  /-- If somebody leaves later the wait is over with the time, and everybody who does so is named; -/
  overdue : (∃ worker ∈ (x.state i).staff crew, due < ends worker) → (x.state n).now = due ∧
    ((((x.state i).staff crew).filter fun worker => due < ends worker).map Prod.snd).Subperm stuck
  sorted : stuck.Pairwise (· ≤ ·)
  /-- and nobody who leaves earlier. -/
  named : stuck.Subperm ((((x.state i).staff crew).filter fun worker => due ≤ ends worker).map Prod.snd)

/-- Of fewer workers there are fewer names. -/
theorem names_subperm {staff staff' : List (Nat × String)} (h : staff.Subperm staff') :
    (staff.map Prod.snd).Subperm (staff'.map Prod.snd) := by
  obtain ⟨l, hperm, hsublist⟩ := h
  exact ⟨l.map Prod.snd, hperm.map _, hsublist.map _⟩

section Separates

variable (hx : x.IsProper) (hnobody : x.HiresNobody crew i) (hends : x.EndsAt crew i ends)
include hx hnobody hends

/-- When nobody is left everybody has left by then. -/
theorem lastEnd_le (htime : x.KeepsTime t) (hin : i ≤ n) (hgone : (x.state n).staff crew = []) :
    lastEnd ends (x.state i).now ((x.state i).staff crew) ≤ (x.state n).now := by
  refine lastEnd_le_iff.2 ⟨Nat.cast_le.2 (htime.le hin), fun worker hworker => le_of_not_gt fun hlater => ?_⟩
  have hmem := (hends worker hworker).mem_of_lt hx hnobody htime hin hlater
  rw [hgone] at hmem
  cases hmem

/-- The moment with which the last of all workers leaves is that of the last of them to leave. -/
theorem le_lastEnd {k : Nat} (hik : i ≤ k) (hbusy : (x.state k).staff crew ≠ [])
    (hgone : (x.state (k + 1)).staff crew = []) :
    ((x.state (k + 1)).now : ℕ∞) ≤ lastEnd ends (x.state i).now ((x.state i).staff crew) := by
  obtain ⟨worker, hworker⟩ := List.exists_mem_of_ne_nil _ hbusy
  have hfirst := (staff_shrinks hx hnobody (Nat.le_refl i) hik).subset hworker
  have hleaves : x.LeavesAt crew i worker (x.state (k + 1)).now :=
    .leaves hik hworker (by rw [hgone]; exact List.not_mem_nil)
  rw [hleaves.unique hx hnobody (hends worker hfirst)]
  exact (lastEnd_le_iff.1 (le_refl _)).2 worker hfirst

/-- A wait that ends because nobody is left. -/
theorem separates_of_emptied (htime : x.KeepsTime t) (hin : i ≤ n) (hdue : (x.state n).now ≤ due)
    (hgone : (x.state n).staff crew = [])
    (hlast : (x.state n).now = (x.state i).now ∨ ∃ k, i ≤ k ∧ (x.state k).staff crew ≠ [] ∧
      (x.state (k + 1)).staff crew = [] ∧ (x.state n).now = (x.state (k + 1)).now) :
    x.Separates crew i due ends n [] where
  finished _ := by
    refine ⟨rfl, le_antisymm ?_ (lastEnd_le hx hnobody hends htime hin hgone)⟩
    rcases hlast with hnow | ⟨k, hik, hbusy, hgone', hnow⟩
    · rw [hnow]
      exact (lastEnd_le_iff.1 (le_refl _)).1
    · rw [hnow]
      exact le_lastEnd hx hnobody hends hik hbusy hgone'
  overdue := by
    rintro ⟨worker, hworker, hlater⟩
    have hmem := (hends worker hworker).mem_of_lt hx hnobody htime hin
      (lt_of_le_of_lt (Nat.cast_le.2 hdue) hlater)
    rw [hgone] at hmem
    cases hmem
  sorted := .nil
  named := List.nil_subperm

/-- A wait that ends because the time is over, and after which those are named who are on the list. -/
theorem separates_of_overdue (hknown : x.HiresKnown crew) (htime : x.KeepsTime t) (hin : i ≤ n)
    (hnow : (x.state n).now = due) (hbusy : (x.state n).staff crew ≠ []) (hnm : n ≤ m)
    (hsame : (x.state m).now = due) : x.Separates crew i due ends n ((x.state m).workers crew) := by
  have him := Nat.le_trans hin hnm
  have hnodup : ∀ n, ((x.state n).staff crew).Nodup := fun n =>
    (staff_rising hx hknown n).imp fun hlt => ne_of_apply_ne Prod.fst (Nat.ne_of_lt hlt)
  have hlate : ∀ {n worker}, i ≤ n → (x.state n).now = due → worker ∈ (x.state n).staff crew →
      worker ∈ (x.state i).staff crew ∧ due ≤ ends worker := fun {n worker} hin hnow hmem => by
    have hfirst := (staff_shrinks hx hnobody (Nat.le_refl i) hin).subset hmem
    exact ⟨hfirst, hnow ▸ (hends worker hfirst).le_of_mem hx hnobody htime hmem⟩
  have htold := (staffed hx hknown m).workers_perm
  refine ⟨fun hearly => ?_, fun _ => ⟨hnow, ?_⟩, workers_sorted hx hknown m, ?_⟩
  · obtain ⟨worker, hmem⟩ := List.exists_mem_of_ne_nil _ hbusy
    obtain ⟨hfirst, hdue⟩ := hlate hin hnow hmem
    exact absurd (hearly worker hfirst) (not_lt_of_ge hdue)
  · refine (names_subperm ?_).trans htold.symm.subperm
    refine List.subperm_of_subset ((hnodup i).filter _) fun worker hworker => ?_
    obtain ⟨hfirst, hlater⟩ := List.mem_filter.1 hworker
    exact (hends worker hfirst).mem_of_lt hx hnobody htime him (hsame ▸ of_decide_eq_true hlater)
  · refine htold.subperm.trans (names_subperm ?_)
    refine List.subperm_of_subset (hnodup m) fun worker hworker => ?_
    obtain ⟨hfirst, hdue⟩ := hlate him hsame hworker
    exact List.mem_filter.2 ⟨hfirst, decide_eq_true hdue⟩

end Separates

/-! ### The course of a wait -/

/-- Task `t` cancels a token with step `l`, waits for a crew from step `m` to step `n`, and goes on after `e` steps
with the names of those that have outlasted the grace period.  No time passes but while it waits. -/
structure Disbands (x : Execution w) (t : TaskId) (calls : Calls A) (passes : List Pass) (token : TokenId)
    (crew : CrewId) (grace : Duration) (next : List String → Program A Outcome) (i l m n e : Nat)
    (stuck : List String) : Prop where
  cancels : i ≤ l ∧ l < m ∧ x.turn l = some t ∧ (x.state l).IsAboutTo t (.cancel token)
  dissolves : x.Dissolves t calls passes crew grace next m n e stuck
  begins : (x.state l).now = (x.state i).now ∧ (x.state m).now = (x.state i).now
  tells : (x.state e).now = (x.state n).now
  separates : ∀ ends, x.EndsAt crew i ends →
    x.Separates crew i ((x.state i).now + grace.ceilMillis) ends n stuck

/-- The time is not over yet, and the task is held up only as long as somebody works for the crew. -/
def AwaitsCrew (x : Execution w) (t : TaskId) (crew : CrewId) (due n : Nat) : Prop :=
  (x.state n).now ≤ due ∧
    ((x.state n).advance w t = none → (x.state n).staff crew ≠ [] ∧ (x.state n).now < due)

/-- No time passes while a task goes on, -/
theorem Rests.awaitsCrew {p : Program A Outcome} (htime : x.KeepsTime t) (hdue : (x.state i).now ≤ due) (hij : i ≤ j)
    (hrests : x.Rests t ⟨.running p, calls, passes⟩ i j) : x.AwaitsCrew t crew due j := by
  refine ⟨(hrests.now_of_running htime hij).trans_le hdue, fun hnone => ?_⟩
  have hready := State.ready_of_running (w := w) (hrests.last hij)
  rw [hnone] at hready
  cases hready

/-- nor with its next step. -/
theorem Acts.now_eq {p : Program A Outcome} {d : Nat} {k' : Core A} (htime : x.KeepsTime t)
    (h : x.Acts t d ⟨.running p, calls, passes⟩ i n k') :
    (x.state n).now = (x.state i).now ∧ (x.state (n + 1)).now = (x.state i).now := by
  have hnow := h.rests.now_of_running htime h.le
  exact ⟨hnow, (htime.now_of_turn h.turn).trans hnow⟩

/-- With step `m` a task has closed a crew, having cancelled a token with step `l`, and waits for it. -/
structure ClosesCrew (x : Execution w) (t : TaskId) (calls : Calls A) (passes : List Pass) (token : TokenId)
    (crew : CrewId) (grace : Duration) (next : List String → Program A Outcome) (i l m : Nat) : Prop where
  cancels : i ≤ l ∧ l < m ∧ x.turn l = some t ∧ (x.state l).IsAboutTo t (.cancel token)
  asks : x.turn m = some t ∧ (x.state m).IsAboutTo t (.awaitCrew crew grace)
  begins : (x.state l).now = (x.state i).now ∧ (x.state m).now = (x.state i).now
  waits : (x.state (m + 1)).core t = some ⟨.waiting (.crew crew ((x.state i).now + grace.ceilMillis)
    fun emptied => Crew.report crew grace emptied >>= next), calls, passes⟩
  closed : ∃ c, (x.state (m + 1)).crews[crew]? = some c ∧ c.closed = true ∧ c.emptied = false

/-- The wait is decided with step `n`: nobody is left since this moment, or the time is over and somebody is. -/
structure Decides (x : Execution w) (t : TaskId) (calls : Calls A) (passes : List Pass) (crew : CrewId)
    (grace : Duration) (next : List String → Program A Outcome) (i m n : Nat) (emptied : Bool) : Prop where
  turn : m < n ∧ x.turn n = some t
  waits : (x.state n).core t = some ⟨.waiting (.crew crew ((x.state i).now + grace.ceilMillis)
    fun emptied => Crew.report crew grace emptied >>= next), calls, passes⟩
  goesOn : (x.state (n + 1)).core t = some ⟨.running (Crew.report crew grace emptied >>= next), calls, passes⟩
  inTime : (x.state n).now ≤ (x.state i).now + grace.ceilMillis
  empty : emptied = true → (x.state n).staff crew = [] ∧ ((x.state n).now = (x.state i).now ∨
    ∃ k, i ≤ k ∧ (x.state k).staff crew ≠ [] ∧ (x.state (k + 1)).staff crew = [] ∧
      (x.state n).now = (x.state (k + 1)).now)
  busy : emptied = false → (x.state n).staff crew ≠ [] ∧ (x.state n).now = (x.state i).now + grace.ceilMillis

section Course

variable {next : List String → Program A Outcome} (hx : x.IsProper) (htime : x.KeepsTime t)
include hx htime

/-- The token is cancelled and the crew is closed, all in one moment. -/
theorem closesCrew (hfounded : crew < (x.state i).crews.length) (hk : (x.state i).core t = some ⟨.running
      (.perform (.cancel token) fun _ => Crew.dissolve crew grace >>= next), calls, passes⟩) :
    x.Reaches t (x.Attends t ∧ x.Expires t) calls.length i
      (x.AwaitsCrew t crew ((x.state i).now + grace.ceilMillis))
      fun n => ∃ l m, n = m + 1 ∧ x.ClosesCrew t calls passes token crew grace next i l m := by
  have hdue : (x.state i).now ≤ (x.state i).now + grace.ceilMillis := Nat.le_add_right _ _
  refine (Reaches.goOn And.left hk fun j hj hrests => hrests.awaitsCrew htime hdue hj).andThen ?_
  rintro _ - ⟨l, k₁, rfl, hcancels⟩
  obtain ⟨hnowl, hnowl'⟩ := hcancels.now_eq htime
  have hk₁ : (x.state (l + 1)).core t
      = some ⟨.running (Crew.dissolve crew grace >>= next), calls, passes⟩ := by
    rw [hcancels.operates]
    exact (congrFun (State.core_eq (State.cancel_tasks _ token)) t).trans (State.core_setStatus hcancels.before _)
  rw [Crew.dissolve_eq] at hk₁
  refine (Reaches.goOn And.left hk₁ fun j hj hrests =>
    hrests.awaitsCrew htime (hnowl'.trans_le hdue) hj).andThen ?_
  rintro _ - ⟨m, k₂, rfl, hasks⟩
  obtain ⟨hnowm, -⟩ := hasks.now_eq htime
  rw [hnowl'] at hnowm
  obtain ⟨hwaits, hcrews⟩ := awaitCrew_step hasks.turn hasks.before
  rw [hnowm] at hwaits
  obtain ⟨c, hc, -⟩ := crew_keeps hx (Nat.le_trans (Nat.le_succ_of_le hcancels.le) hasks.le)
    (List.getElem?_eq_getElem hfounded)
  rw [hc] at hcrews
  exact .here ⟨l, m, rfl, ⟨hcancels.le, hasks.le, hcancels.turn, _, _, _, hcancels.before⟩,
    ⟨hasks.turn, _, _, _, hasks.before⟩, ⟨hnowl, hnowm⟩, hwaits, _, hcrews, rfl, rfl⟩

variable (hknown : x.HiresKnown crew) (hnobody : x.HiresNobody crew i)
include hknown hnobody

/-- **The wait is decided** as soon as nobody is left, or with the time. -/
theorem ClosesCrew.decides (h : x.ClosesCrew t calls passes token crew grace next i l m) :
    x.Reaches t (x.Attends t ∧ x.Expires t) calls.length (m + 1)
      (x.AwaitsCrew t crew ((x.state i).now + grace.ceilMillis))
      fun j => ∃ n emptied, j = n + 1 ∧ x.Decides t calls passes crew grace next i m n emptied := by
  obtain ⟨hil, hlm, -, -⟩ := h.cancels
  have him : i ≤ m := Nat.le_trans hil (Nat.le_of_lt hlm)
  obtain ⟨c, hc, hclosed, hempty⟩ := h.closed
  have hnow : (x.state (m + 1)).now = (x.state i).now := (htime.now_of_turn h.asks.1).trans h.begins.2
  have hinTime : ∀ {j}, m + 1 ≤ j → x.Rests t ⟨.waiting (.crew crew ((x.state i).now + grace.ceilMillis)
      fun emptied => Crew.report crew grace emptied >>= next), calls, passes⟩ (m + 1) j →
      (x.state j).now ≤ (x.state i).now + grace.ceilMillis := fun {j} hmj hrests => by
    refine htime.now_le hmj (hnow.trans_le (Nat.le_add_right _ _)) fun a ha haj => .inr ?_
    exact (State.mem_dues_iff (hrests.core a ha (Nat.le_of_lt haj))).2 (.inl rfl)
  have hwaiting : ∀ j, m + 1 ≤ j → x.Rests t ⟨.waiting (.crew crew ((x.state i).now + grace.ceilMillis)
      fun emptied => Crew.report crew grace emptied >>= next), calls, passes⟩ (m + 1) j →
      x.AwaitsCrew t crew ((x.state i).now + grace.ceilMillis) j := fun j hmj hrests =>
    ⟨hinTime hmj hrests, held_up hx hknown hmj hc hclosed (hrests.last hmj)⟩
  refine (Reaches.step h.waits hwaiting ?_).andThen ?_
  · -- When the time is over the task can go on.
    rintro ⟨hattends, hexpires⟩ huncut
    obtain ⟨a, hma, hdue | hturn⟩ := hexpires _ _ _ _ _ _ h.waits
    · rcases first_turn (huncut a) hma h.waits with hrests | ⟨b, k', -, hacts⟩
      · obtain ⟨b, hab, hturn⟩ := hattends.served a
          (State.ready_of_mem_dues ((State.mem_dues_iff (hrests.last hma)).2 (.inl rfl)) hdue)
        exact ⟨b, Nat.le_trans hma hab, hturn⟩
      · exact ⟨b, hacts.le, hacts.turn⟩
    · exact ⟨a, hma, hturn⟩
  rintro _ - ⟨n, k', rfl, hdecides⟩
  have hmn : m < n := hdecides.le
  obtain ⟨emptied, hstate, hdone, hdue⟩ := State.advance_crew (advance_of_turn hdecides.turn) hdecides.after
    hdecides.goesOn hdecides.depth hdecides.before
  refine .here ⟨n, emptied, rfl, ⟨hmn, hdecides.turn⟩, hdecides.before, ?_, hinTime hmn hdecides.rests, ?_, ?_⟩
  · rw [hstate]
    exact State.core_setStatus hdecides.before _
  · rintro rfl
    have hhired : x.hired crew m n = [] :=
      filterMap_steps_eq_nil_iff.2 fun a hma _ => hnobody a (Nat.le_trans him hma)
    have hgone : (x.state n).staff crew = [] :=
      staff_of_isDone hx hknown hmn (fun c' hc' => Option.some.inj (hc.symm.trans hc') ▸ hempty) hhired hdone.symm
    refine ⟨hgone, ?_⟩
    rcases last_gone hx hknown htime hmn hdecides.rests hc hclosed hgone with hsame | ⟨k, hmk, hlast⟩
    · exact .inl (hsame.trans hnow)
    · exact .inr ⟨k, Nat.le_trans him (Nat.le_of_succ_le hmk), hlast⟩
  · rintro rfl
    refine ⟨fun hgone => ?_, Nat.le_antisymm (hinTime hmn hdecides.rests) (hdue rfl)⟩
    rw [isDone_of_staff hx hknown hmn hc hclosed hgone] at hdone
    cases hdone

/-- Once the wait is decided those are named who are on the list, if the time is over, and nobody otherwise. -/
theorem Decides.disbands {emptied : Bool} (h : x.ClosesCrew t calls passes token crew grace next i l m)
    (h' : x.Decides t calls passes crew grace next i m n emptied) :
    x.Reaches t (x.Attends t ∧ x.Expires t) calls.length (n + 1)
      (x.AwaitsCrew t crew ((x.state i).now + grace.ceilMillis))
      fun e => ∃ stuck, x.Disbands t calls passes token crew grace next i l m n e stuck := by
  obtain ⟨hil, hlm, -, -⟩ := h.cancels
  obtain ⟨hmn, hturn⟩ := h'.turn
  have hin : i ≤ n := by omega
  have hnow' := htime.now_of_turn hturn
  have hdisbands : ∀ {e stuck}, n < e → (x.state e).core t = some ⟨.running (next stuck), calls, passes⟩ →
      (x.state e).now = (x.state n).now →
      (∀ ends, x.EndsAt crew i ends → x.Separates crew i ((x.state i).now + grace.ceilMillis) ends n stuck) →
      ∃ stuck, x.Disbands t calls passes token crew grace next i l m n e stuck := by
    intro e stuck hne hcore hnow hseparates
    have hwaits := h'.waits
    rw [← h.begins.2] at hwaits
    exact ⟨stuck, h.cancels, ⟨h.asks, ⟨hmn, hturn, _, hwaits⟩, hne, hcore⟩, h.begins, hnow, hseparates⟩
  cases emptied with
  | true =>
    obtain ⟨hgone, hlast⟩ := h'.empty rfl
    exact .here (hdisbands (Nat.lt_succ_self n) h'.goesOn hnow' fun ends hends =>
      separates_of_emptied hx hnobody hends htime hin h'.inTime hgone hlast)
  | false =>
    obtain ⟨hbusy, hnow⟩ := h'.busy rfl
    refine (Reaches.goOn And.left h'.goesOn fun j hj hrests =>
      hrests.awaitsCrew htime (hnow'.trans hnow).le hj).andThen ?_
    rintro _ - ⟨o, k₁, rfl, hnames⟩
    obtain ⟨hnowo, hnowo'⟩ := hnames.now_eq htime
    have htold : (x.state (o + 1)).core t = some ⟨.running (.perform
        (.record (Crew.overdue grace ((x.state o).workers crew))) fun _ => next ((x.state o).workers crew)),
        calls, passes⟩ := by
      rw [hnames.operates]
      exact State.core_setStatus hnames.before _
    refine (Reaches.goOn And.left htold fun j hj hrests =>
      hrests.awaitsCrew htime (hnowo'.trans (hnow'.trans hnow)).le hj).andThen ?_
    rintro _ - ⟨a, k₂, rfl, hrecords⟩
    obtain rfl := Step.of_record hrecords.goesOn hrecords.depth hrecords.step
    have hno := hnames.le
    have hoa := hrecords.le
    refine .here (hdisbands (by omega) hrecords.after ?_ fun ends hends => ?_)
    · exact (hrecords.now_eq htime).2.trans (hnowo'.trans hnow')
    · exact separates_of_overdue hx hnobody hends hknown htime hin hnow hbusy (Nat.le_of_succ_le hno)
        (hnowo.trans (hnow'.trans hnow))

/-- **A task that cancels a token and waits for a crew** goes on with the names of those that have outlasted the
grace period. -/
theorem disbands (hfounded : crew < (x.state i).crews.length) (hk : (x.state i).core t = some ⟨.running
      (.perform (.cancel token) fun _ => Crew.dissolve crew grace >>= next), calls, passes⟩) :
    x.Reaches t (x.Attends t ∧ x.Expires t) calls.length i
      (x.AwaitsCrew t crew ((x.state i).now + grace.ceilMillis))
      fun e => ∃ l m n stuck, x.Disbands t calls passes token crew grace next i l m n e stuck := by
  refine (closesCrew hx htime hfounded hk).andThen ?_
  rintro _ - ⟨l, m, rfl, hcloses⟩
  refine (hcloses.decides hx htime hknown hnobody).andThen ?_
  rintro _ - ⟨n, emptied, rfl, hdecides⟩
  exact (hdecides.disbands hx htime hknown hnobody hcloses).mono fun e ⟨stuck, h⟩ => ⟨l, m, n, stuck, h⟩

end Course

/-- With given moves nobody waits for a crew for ever who waits for nothing after its last step. -/
theorem directed_expires {buses : Nat} {p : Program A Outcome} {memory : A.Memory} {moves : List Move}
    (hclock : ((Execution.directed w buses p memory moves).state (moves.length + 1)).tick = none)
    (hturn : (Execution.directed w buses p memory moves).turn l = some t) (hlast : l ≤ moves.length)
    (hawake : ∀ n, n ≤ moves.length + 1 → l < n →
      ((Execution.directed w buses p memory moves).state n).dues t = []) :
    (Execution.directed w buses p memory moves).Expires t := by
  intro n crew due next calls passes hk
  refine ⟨l, Nat.le_of_not_lt fun hln => ?_, .inr hturn⟩
  have hmem : due ∈ ((Execution.directed w buses p memory moves).state n).dues t :=
    (State.mem_dues_iff hk).2 (.inl rfl)
  have hnone := directed_forever (P := fun s => s.dues t = []) hclock hawake (Nat.succ_le_succ hlast) hln
  rw [hnone] at hmem
  cases hmem

/-! ### Workers that heed their token -/

/-- Whoever cancels a token has done so with the next step. -/
theorem cancelled_of_turn (hturn : x.turn l = some t) (habout : (x.state l).IsAboutTo t (.cancel token))
    (htoken : token < (x.state l).tokens.length) : (x.state (l + 1)).isCancelled token = true := by
  obtain ⟨next, calls, passes, hk⟩ := habout
  rw [operates_of_turn hturn hk]
  exact State.isCancelled_cancel_self htoken

/-- **Whoever heeds its token leaves at once**, and is not named if there is any time at all. -/
theorem Disbands.heeds {root u : TaskId} {next : List String → Program A Outcome} {worker : Nat × String}
    (hx : x.IsSteady) (hknown : x.HiresKnown crew) (htime : x.KeepsTime t) (hnobody : x.HiresNobody crew i)
    (h : x.Disbands t calls passes root crew grace next i l m n e stuck)
    (hdescends : (x.state i).Descends root token) (htime' : x.KeepsTime u) (hattends : x.Attends u)
    (hpost : (x.state i).posts[u]? = some (some (crew, worker))) (hheeds : x.HeedsAt u token i) :
    x.LeavesAt crew i worker (x.state i).now ∧
      (0 < grace.ceilMillis → stuck.Subperm ((((x.state i).staff crew).erase worker).map Prod.snd)) := by
  obtain ⟨hil, -, hturn, habout⟩ := h.cancels
  have hroot := State.lt_of_parentOf (hx.descends hil hdescends).origin
  have hcancelled := (hx.descends (Nat.le_succ_of_le hil) hdescends).cancelled
    (cancelled_of_turn hturn habout hroot)
  have hnow : (x.state (l + 1)).now = (x.state i).now := (htime.now_of_turn hturn).trans h.begins.1
  have hleaves := leavesAt_of_heeds hx.proper hknown hnobody htime' hattends hpost hheeds
    (Nat.le_succ_of_le hil) hcancelled hnow
  refine ⟨hleaves, fun hgrace => ?_⟩
  have hexists : ∀ worker, ∃ T, worker ∈ (x.state i).staff crew → x.LeavesAt crew i worker T := fun worker => by
    by_cases hworker : worker ∈ (x.state i).staff crew
    · obtain ⟨T, hT⟩ := exists_leavesAt hworker
      exact ⟨T, fun _ => hT⟩
    · exact ⟨0, fun hmem => absurd hmem hworker⟩
  choose ends hends using hexists
  refine (h.separates ends hends).named.trans (names_subperm ?_)
  have hnodup : ((x.state i).staff crew).Nodup :=
    (staff_rising hx.proper hknown i).imp fun hlt => ne_of_apply_ne Prod.fst (Nat.ne_of_lt hlt)
  refine List.subperm_of_subset (hnodup.filter _) fun other hother => ?_
  obtain ⟨hmem, hlate⟩ := List.mem_filter.1 hother
  refine (List.mem_erase_of_ne fun heq => ?_).2 hmem
  subst heq
  have hearly : ends other = (x.state i).now := (hends other hmem).unique hx.proper hnobody hleaves
  have hdue := of_decide_eq_true hlate
  rw [hearly, Nat.cast_le] at hdue
  omega

end Machine.Execution

/-! ### The main result -/

/-- Whoever has been waited for in vain is reported. -/
theorem Ensemble.leave_run {cast : Cast} {e : Ensemble} {failures : List Fault} {stuck : List String}
    {tr : List (Exchange A)} {r : ShutdownSummary × Ensemble} (h : (leave cast e failures stuck).Run tr r) :
    r.1.stuckWorkers = stuck := by
  obtain ⟨_, ⟨⟩, _, -, -, hlisteners⟩ := Program.run_bind_iff.1 h
  obtain ⟨_, ⟨⟩, _, -, -, hrecord⟩ := Program.run_bind_iff.1 hlisteners
  obtain ⟨⟨⟩, _, -, hend⟩ := Program.run_ask_bind_iff.1 hrecord
  rw [(Program.run_pure_iff.1 hend).2]

/-- **The grace period separates the finished from the stuck.**  A shutdown tells the workers to stop, and nobody
is hired any more.  If every worker leaves before the grace period is over, nobody is reported, and the wait ends at
the moment at which the last of them leaves, or at once if there is none.  If somebody leaves later, the wait ends
with the grace period, and the report names, in their order, everybody who leaves later and nobody who leaves
earlier; so nobody is named who ends as soon as its token is cancelled. -/
theorem grace_separates (x : Execution w) (hx : x.IsSteady) (cast : Cast) (name : String) (e : Ensemble) (c : Closing)
    (next : ShutdownSummary × Ensemble → Program A Outcome) (t : TaskId) (calls : Calls A) (passes : List Pass)
    (i : Nat) (hknown : x.HiresKnown e.crew) (hnobody : x.HiresNobody e.crew i) (htime : x.KeepsTime t)
    (hfounded : e.crew < (x.state i).crews.length)
    -- Task `t` is about to tell the workers of an ensemble to stop.
    (hk : (x.state i).core t = some ⟨.running
      (.ask (.cancel e.runtime) >>= fun _ => e.standDown cast c >>= next), calls, passes⟩) :
    -- That is what a shutdown comes to when its hooks have been run and the bus has been told.
    e.shutdown (A := A) cast name = (do
      let c ← e.runClosing cast name
      .ask (.cancel e.runtime)
      e.standDown cast c) ∧
    -- Every worker leaves at one moment, or never.
    (∀ worker ∈ (x.state i).staff e.crew, ∃! T, x.LeavesAt e.crew i worker T) ∧
    -- The shutdown goes on with the names of those that have outlasted the grace period,
    (x.Reaches t (x.Attends t ∧ x.Expires t) calls.length i
      (x.AwaitsCrew t e.crew ((x.state i).now + e.config.grace.ceilMillis)) fun n' => ∃ l m n stuck,
        x.Disbands t calls passes e.runtime e.crew e.config.grace
          (fun stuck => Ensemble.leave cast { e with slots := c.slots } c.failures stuck >>= next) i l m n n' stuck) ∧
    -- none of which is that of a worker that heeds its token,
    (∀ l m n n' stuck, x.Disbands t calls passes e.runtime e.crew e.config.grace
        (fun stuck => Ensemble.leave cast { e with slots := c.slots } c.failures stuck >>= next) i l m n n' stuck →
      ∀ u token worker, (x.state i).Descends e.runtime token → x.KeepsTime u → x.Attends u →
        (x.state i).posts[u]? = some (some (e.crew, worker)) → x.HeedsAt u token i →
        x.LeavesAt e.crew i worker (x.state i).now ∧ (0 < e.config.grace.ceilMillis →
          stuck.Subperm ((((x.state i).staff e.crew).erase worker).map Prod.snd))) ∧
    -- and reports them.
    (∀ failures stuck tr r, (Ensemble.leave (A := A) cast { e with slots := c.slots } failures stuck).Run tr r →
      r.1.stuckWorkers = stuck) ∧
    ∀ millis, (Duration.ofMillis millis).ceilMillis = millis := by
  refine ⟨Ensemble.shutdown_eq_standDown, fun worker hworker => ?_, ?_, ?_, fun _ _ _ _ => Ensemble.leave_run,
    Duration.ceilMillis_ofMillis⟩
  · obtain ⟨T, hT⟩ := Execution.exists_leavesAt hworker
    exact ⟨T, hT, fun T' hT' => hT'.unique hx.proper hnobody hT⟩
  · refine Execution.disbands hx.proper htime hknown hnobody hfounded ?_
    rw [Ensemble.standDown, bind_assoc] at hk
    exact hk
  · intro l m n n' stuck h u token worker hdescends htime' hattends hpost hheeds
    exact h.heeds hx hknown htime hnobody hdescends htime' hattends hpost hheeds

/-- What a worker does: it waits for its token, sleeps, or never comes to an end. -/
inductive Watch where
  | heeds (token : TokenId)
  | naps (millis : Nat)
  | stays

/-- Workers watch. -/
def Application.watches : Application where
  Job := Watch
  Effect := Empty
  Answer _ := Unit
  Memory := Unit
  perform e := e.elim

/-- What a worker does who watches. -/
def Program.watch : Watch → Program .watches Outcome
  | .heeds token => .perform (.awaitCancel token) fun _ => .done (.ok ())
  | .naps millis => .perform (.sleep millis) fun _ => .done (.ok ())
  | .stays => .perform .hang nofun

/-- A world in which whoever is called does nothing, and workers watch. -/
def World.watches : World .watches := ⟨.sample, fun _ => .done (.ok ()), Program.watch⟩

/-- An ensemble without modules that waits 5 ms for its workers. -/
def Ensemble.brief : Ensemble :=
  { Ensemble.sample with config := { grace := .ofMillis 5 }, slots := [], listeners := [] }

/-- A module that has a token of its own. -/
def Kit.watchful : Kit := { Kit.sample with token := 1 }

/-- Waits for ever, whatever has been reported. -/
def Program.dismissed (_ : ShutdownSummary × Ensemble) : Program .watches Outcome := .perform .hang nofun

/-- Four workers are started, and the ensemble is shut down. -/
def Program.watches : Program .watches Outcome := do
  let _ ← .ask (.newToken none)
  let _ ← .ask (.newToken (some 0))
  let _ ← .ask .newCrew
  Kit.watchful.startWorker "heeds" (.heeds 1)
  Kit.watchful.startWorker "early" (.naps 2)
  Kit.watchful.startWorker "stays" .stays
  Kit.watchful.startWorker "late" (.naps 9)
  Ensemble.brief.shutdown .sample "sample" >>= Program.dismissed

open Move in
/-- The workers go on, the main task tells them to stop, and then the clock moves whenever everybody waits. -/
def Machine.Execution.watches : Execution World.watches :=
  .directed World.watches 1 Program.watches () (List.replicate 11 (step 0) ++
    [step 1, park 1, step 2, park 2, step 3, park 3, step 4, park 4, step 0, step 0, park 0, step 1, step 1,
      tick, step 2, step 2, tick, step 0, step 0, step 0, step 0, step 0, tick, step 4, step 4])

/-- When the workers leave. -/
def watchEnds (worker : Nat × String) : ℕ∞ :=
  match worker.1 with
  | 0 => 0
  | 1 => 2
  | 2 => ⊤
  | _ => 9

namespace Machine.Execution

/-- Nobody is hired before the crew has been founded, and nobody once the workers have been told to stop. -/
theorem watches_hires : Execution.watches.HiresKnown 0 ∧ Execution.watches.HiresNobody 0 20 := by
  have hmoves : ∀ n, n < 37 → (Execution.watches.hiredAt 0 n).isSome = true →
      0 < (Execution.watches.state n).crews.length ∧ n < 20 := by decide +kernel
  have hlate : ∀ n, 37 ≤ n → Execution.watches.hiredAt 0 n = none := fun n hn => by
    have hturn : Execution.watches.turn n = none := directed_turn hn
    rw [hiredAt, hturn]
    rfl
  refine ⟨fun n hhired => ?_, fun n hn => ?_⟩
  · rcases Nat.lt_or_ge n 37 with hlt | hge
    · exact (hmoves n hlt hhired).1
    · rw [hlate n hge] at hhired
      cases hhired
  · rcases Nat.lt_or_ge n 37 with hlt | hge
    · refine Option.not_isSome_iff_eq_none.1 fun hhired => ?_
      exact Nat.not_lt_of_le hn (hmoves n hlt hhired).2
    · exact hlate n hge

/-- In the end the clock stands still. -/
theorem watches_tick : (Execution.watches.state 37).tick = none :=
  Option.isNone_iff_eq_none.1 (by decide +kernel)

/-- One worker never leaves, and the others do so at the given moments. -/
theorem watches_endsAt : Execution.watches.EndsAt 0 20 watchEnds := by
  have hstaff : (Execution.watches.state 20).staff 0
      = [(0, "gateway/heeds"), (1, "gateway/early"), (2, "gateway/stays"), (3, "gateway/late")] := rfl
  have hleaves : ∀ (n T : Nat) worker, 20 ≤ n → worker ∈ (Execution.watches.state n).staff 0 →
      worker ∉ (Execution.watches.state (n + 1)).staff 0 → (Execution.watches.state (n + 1)).now = T →
      Execution.watches.LeavesAt 0 20 worker T := fun n T worker hn hmem hgone hnow => hnow ▸ .leaves hn hmem hgone
  intro worker hworker
  rw [hstaff] at hworker
  simp only [List.mem_cons, List.not_mem_nil, or_false] at hworker
  rcases hworker with rfl | rfl | rfl | rfl
  · exact hleaves 24 0 _ (by decide) (by decide +kernel) (by decide +kernel) (by decide +kernel)
  · exact hleaves 27 2 _ (by decide) (by decide +kernel) (by decide +kernel) (by decide +kernel)
  · have hstays : ∀ n, n ≤ 37 → 20 ≤ n → (2, "gateway/stays") ∈ (Execution.watches.state n).staff 0 := by
      decide +kernel
    exact .never fun n hn => directed_forever (P := fun s => (2, "gateway/stays") ∈ s.staff 0) watches_tick hstays
      (by decide) hn
  · exact hleaves 36 9 _ (by decide) (by decide +kernel) (by decide +kernel) (by decide +kernel)

/-- After 5 ms two workers are left. -/
theorem watches_separates {n : Nat} {stuck : List String}
    (h : Execution.watches.Separates 0 20 5 watchEnds n stuck) :
    (Execution.watches.state n).now = 5 ∧ stuck = ["gateway/late", "gateway/stays"] := by
  have hstaff : (Execution.watches.state 20).staff 0
      = [(0, "gateway/heeds"), (1, "gateway/early"), (2, "gateway/stays"), (3, "gateway/late")] := rfl
  obtain ⟨-, hoverdue, hsorted, hnamed⟩ := h
  rw [hstaff] at hoverdue hnamed
  obtain ⟨hnow, hnames⟩ := hoverdue ⟨(3, "gateway/late"), by decide, by decide⟩
  have hlater : ["gateway/stays", "gateway/late"].Subperm stuck := hnames
  have hlate : stuck.Subperm ["gateway/stays", "gateway/late"] := hnamed
  have hperm : stuck.Perm ["gateway/late", "gateway/stays"] := (hlate.antisymm hlater).trans (.swap _ _ _)
  exact ⟨hnow, hperm.eq_of_pairwise (fun a b _ _ => String.le_antisymm) hsorted (by decide)⟩

end Machine.Execution

open Execution in
/-- With 5 ms to go, those are named who leave after 9 ms and never; whoever heeds its token has left at once. -/
theorem grace_separates_watches : ∃ l m n e, (Execution.watches.state n).now = 5 ∧
    (∃ next, Execution.watches.Disbands 0 [] [] 0 0 (.ofMillis 5) next 20 l m n e ["gateway/late", "gateway/stays"]) ∧
    Execution.watches.LeavesAt 0 20 (0, "gateway/heeds") 0 := by
  have hkeeps : ∀ t, t < 2 → ∀ n, n ≤ 36 → Execution.watches.keepsTime t n = true := by decide +kernel
  have htime : ∀ t, t < 2 → Execution.watches.KeepsTime t := fun t ht =>
    directed_keepsTime watches_tick (hkeeps t ht)
  have hattends : ∀ t l, Execution.watches.turn l = some t → l ≤ 36 →
      (∀ n, n ≤ 37 → l < n → ((Execution.watches.state n).advance World.watches t).isNone = true) →
      (Execution.watches.state 37).limits t = [] → Execution.watches.Attends t := fun t l hturn hl hidle hfree =>
    directed_attends_until watches_tick hturn (fun n hn hln => Option.isNone_iff_eq_none.1 (hidle n hn hln)) hl hfree
  have hmain : Execution.watches.Attends 0 ∧ Execution.watches.Expires 0 :=
    ⟨hattends 0 33 (by decide +kernel) (by decide) (by decide +kernel) (by decide +kernel),
      directed_expires (l := 33) watches_tick (by decide +kernel) (by decide) (by decide +kernel)⟩
  have hwithin : ∀ n, n ≤ 37 → 20 ≤ n → ((Execution.watches.state n).core 0).any (Core.isWithin 0) = true := by
    decide +kernel
  obtain ⟨-, -, hreaches, hheeds, -⟩ := grace_separates Execution.watches directed_isSteady .sample "sample" .brief
    ⟨[], 0, []⟩ Program.dismissed 0 [] [] 20 watches_hires.1 watches_hires.2 (htime 0 (by decide)) (by decide) rfl
  obtain ⟨e, -, l, m, n, stuck, hdisbands⟩ :=
    hreaches.comes hmain fun j => directed_uncut watches_tick hwithin (by decide) j
  have hdescends : (Execution.watches.state 20).Descends 0 1 := ⟨rfl, rfl, by decide +kernel⟩
  have hleaves := hheeds l m n e stuck hdisbands 1 1 (0, "gateway/heeds") hdescends (htime 1 (by decide))
    (hattends 1 24 (by decide +kernel) (by decide) (by decide +kernel) (by decide +kernel)) rfl
    ⟨_, _, rfl, .waits (.ends (.done _))⟩
  obtain ⟨hnow, rfl⟩ := watches_separates (hdisbands.separates watchEnds watches_endsAt)
  exact ⟨l, m, n, e, hnow, ⟨_, hdisbands⟩, hleaves.1⟩

end Orchestra
