import Orchestra.Proofs.Muster
import Orchestra.Proofs.Threads
import Orchestra.Proofs.Workers

/-!
# The list of workers is exact

* `Execution.Musters` — all workers that a crew ever had by some moment, and how far they have come;
* `Execution.musters` — with every step of an execution workers are taken on and let go as a whole;
* `Execution.mem_staff_iff` — a worker leaves the list when its task ends, and not otherwise;
* `Execution.startWorker_hires` — by which name a module's worker goes;
* `Execution.held_up` — what holds up whoever waits for a crew;
* `Execution.dissolve_followed` — how a wait for a crew is decided on a single thread;
* `worker_list_exact` — all of it.
-/

namespace Orchestra

/-- What is recorded of those who outlast the wait for them. -/
def Crew.overdue (grace : Duration) (stuck : List String) : Record :=
  ⟨.warn, Origin.workers, "workers still running after grace period",
    [.shown "grace" grace.text, .shown "stuck" (Text.quotedList stuck)]⟩

/-- What is done about a crew once the wait for it has been decided. -/
def Crew.report {A : Application} (crew : CrewId) (grace : Duration) : Bool → Program A (List String)
  | true => .done []
  | false => .perform (.crewNames crew) fun stuck =>
    .perform (.record (overdue grace stuck)) fun _ => .done stuck

theorem Crew.dissolve_eq {A : Application} (crew : CrewId) (grace : Duration) :
    (dissolve crew grace : Program A (List String)) = .perform (.awaitCrew crew grace) (report crew grace) := by
  refine congrArg (Program.perform (.awaitCrew crew grace)) (funext fun emptied => ?_)
  cases emptied <;> rfl

end Orchestra

namespace Orchestra.Machine

variable {A : Application} {w : World A}

/-- All workers that a crew has had by the `n`-th step, those hired and those who have ended: none of them
is on its way in or out. -/
structure Execution.Musters (x : Execution w) (crew : CrewId) (n : Nat) (hands : List Hand) : Prop where
  mustered : ∀ c, (x.state n).crews[crew]? = some c → c.Mustered hands
  nobody : (x.state n).crews[crew]? = none → hands = []
  hired : hands.map Hand.name = x.hired crew 0 n
  settled : ∀ h ∈ hands, h.stint = .counted ∨ h.stint = .released
  staff : entriesOf hands = (x.state n).staff crew

/-- Whoever is on the list and neither on its way in nor out is at work. -/
theorem Hand.eq_of_entry? {h : Hand} {number : Nat} {name : String}
    (hentry : h.entry? = some (number, name)) (hsettled : h.stint = .counted ∨ h.stint = .released) :
    h = ⟨number, name, .counted⟩ := by
  obtain ⟨k, n, stint⟩ := h
  rcases hsettled with hstint | hstint
  · obtain rfl : stint = .counted := hstint
    cases hentry
    rfl
  · obtain rfl : stint = .released := hstint
    cases hentry

/-- Where somebody is on the list, he is among the workers. -/
theorem exists_of_entriesOf {hands : List Hand} {before after : List (Nat × String)} {e : Nat × String}
    (h : entriesOf hands = before ++ e :: after) :
    ∃ first hand last, hands = first ++ hand :: last ∧ hand.entry? = some e ∧
      entriesOf first = before ∧ entriesOf last = after := by
  obtain ⟨l₁, l₂, rfl, hbefore, hrest⟩ := List.filterMap_eq_append_iff.1 h
  obtain ⟨l₃, hand, l₄, rfl, hnone, hentry, hafter⟩ := List.filterMap_eq_cons_iff.1 hrest
  refine ⟨l₁ ++ l₃, hand, l₄, by rw [List.append_assoc], hentry, ?_, hafter⟩
  rw [entriesOf_append, entriesOf, hbefore, entriesOf, List.filterMap_eq_nil_iff.2 hnone, List.append_nil]

namespace State

variable {s s' : State A} {t : TaskId} {crew : CrewId}

/-- A step leaves all posts where they are, unless it ends a task. -/
theorem Effect.posts_cases (h : s.Effect t s') : s.posts <+: s'.posts ∨ s.Ends t s' := by
  cases h with
  | spares h => exact .inl (h.posts ▸ List.prefix_refl _)
  | makesToken _ _ _ _ hposts => exact .inl (hposts ▸ List.prefix_refl _)
  | cancels _ _ _ _ hposts => exact .inl (hposts ▸ List.prefix_refl _)
  | makesCrew _ _ _ hposts => exact .inl (hposts ▸ List.prefix_refl _)
  | closesCrew _ _ _ _ _ hposts => exact .inl (hposts ▸ List.prefix_refl _)
  | spawns _ _ _ _ _ hposts => exact .inl (hposts ▸ List.prefix_append _ _)
  | hires _ _ _ _ _ _ hposts => exact .inl (hposts ▸ List.prefix_append _ _)
  | ends h => exact .inr h

/-- A wait for a crew is decided by whether the crew is done, and given up only when its time is over. -/
theorem advance_crew {w : World A} {k : Core A} {due : Nat} {next : Bool → Program A Outcome}
    {calls : Calls A} {passes : List Pass} (hadvance : s.advance w t = some s') (hk' : s'.core t = some k)
    (hended : k.doing ≠ .ended) (hdepth : calls.length ≤ k.calls.length)
    (h : s.core t = some ⟨.waiting (.crew crew due next), calls, passes⟩) :
    ∃ emptied, s' = s.resume t (next emptied) ∧
      emptied = ((s.crews[crew]?).map CrewState.isDone).getD true ∧ (emptied = false → due ≤ s.now) := by
  obtain ⟨wait, hbare, hproceed, -⟩ := proceed_of_advance hadvance hk' hended hdepth h
  cases wait <;> cases hbare
  rw [proceed] at hproceed
  split at hproceed
  · next hdone =>
    exact ⟨true, (Option.some.inj hproceed).symm, hdone.symm, fun hnot => Bool.noConfusion hnot⟩
  · next hbusy =>
    split at hproceed
    · next hdue =>
      exact ⟨false, (Option.some.inj hproceed).symm, (Bool.eq_false_iff.2 hbusy).symm, fun _ => hdue⟩
    · cases hproceed

/-- Whoever waits for a crew that is done, or longer than there is time, can take a step. -/
theorem exists_advance_of_crew {w : World A} {due : Nat} {next : Bool → Program A Outcome} {calls : Calls A}
    {passes : List Pass} (h : s.core t = some ⟨.waiting (.crew crew due next), calls, passes⟩)
    (hover : ((s.crews[crew]?).map CrewState.isDone).getD true = true ∨ due ≤ s.now) :
    ∃ s', s.advance w t = some s' := by
  refine Option.isSome_iff_exists.1 (ready_of_proceed h fun wait hbare => ?_)
  cases wait <;> cases hbare
  rw [proceed]
  rcases hover with hdone | hdue
  · rw [if_pos hdone]
    rfl
  · rw [if_pos hdue]
    split <;> rfl

/-- A crew stays, and once closed it stays so. -/
theorem Turnover.keeps {newcomer : Option String} (h : s.Turnover crew s' newcomer) {c : CrewState}
    (hc : s.crews[crew]? = some c) :
    ∃ c', s'.crews[crew]? = some c' ∧ (c.closed = true → c'.closed = true) := by
  cases h with
  | same hcrews _ => exact ⟨c, hcrews.trans hc, id⟩
  | founds hnone _ _ => cases hnone.symm.trans hc
  | closes hcrews _ => exact ⟨_, by rw [hcrews, hc]; rfl, fun _ => rfl⟩
  | hires name _ hcrews _ => exact ⟨(c.enrol name).1, by rw [hcrews, hc]; rfl, id⟩
  | leaves number _ hcrews _ _ => exact ⟨(c.dismiss number).uncount, by rw [hcrews, hc]; rfl, id⟩

end State

namespace Execution

variable {x : Execution w} {crew : CrewId} {i j m n : Nat} {t : TaskId}

theorem crew_keeps (hx : x.IsProper) (hij : i ≤ j) {c : CrewState} (hc : (x.state i).crews[crew]? = some c) :
    ∃ c', (x.state j).crews[crew]? = some c' ∧ (c.closed = true → c'.closed = true) := by
  induction hij with
  | refl => exact ⟨c, hc, id⟩
  | step _ ih =>
    obtain ⟨c₁, hc₁, hclosed₁⟩ := ih
    obtain ⟨c₂, hc₂, hclosed₂⟩ := (turnover hx crew _).keeps hc₁
    exact ⟨c₂, hc₂, hclosed₂ ∘ hclosed₁⟩

/-! ### Taken on and let go -/

/-- With a step with which the list does not grow nobody is hired. -/
theorem hiredAt_eq_none
    (h : ((x.state (n + 1)).staff crew).length ≤ ((x.state n).staff crew).length) :
    x.hiredAt crew n = none := by
  cases hhired : x.hiredAt crew n with
  | none => rfl
  | some name =>
    obtain ⟨number, hstaff⟩ := hired_joins hhired
    rw [hstaff, List.length_append, List.length_singleton] at h
    omega

/-- A step with which nobody is hired, and which makes nothing of the workers. -/
theorem Musters.step {hands : List Hand} (h : x.Musters crew n hands)
    (hmustered : ∀ c, (x.state (n + 1)).crews[crew]? = some c → c.Mustered hands)
    (hnobody : (x.state (n + 1)).crews[crew]? = none → hands = [])
    (hstaff : (x.state (n + 1)).staff crew = (x.state n).staff crew) :
    x.Musters crew (n + 1) hands where
  mustered := hmustered
  nobody := hnobody
  hired := by
    rw [hired_succ (Nat.zero_le n), hiredAt_eq_none (Nat.le_of_eq (congrArg List.length hstaff)), h.hired]
    exact (List.append_nil _).symm
  settled := h.settled
  staff := h.staff.trans hstaff.symm

/-- **Workers are taken on and let go as a whole.** -/
theorem musters (hx : x.IsProper) (hknown : x.HiresKnown crew) (n : Nat) :
    ∃ hands, x.Musters crew n hands := by
  induction n with
  | zero =>
    obtain ⟨buses, memory, hstart⟩ := x.start
    refine ⟨[], fun c hc => ?_, fun _ => rfl, hired_self.symm, nofun, ?_⟩
    · rw [hstart] at hc
      cases hc
    · rw [hstart]
      rfl
  | succ n ih =>
    obtain ⟨hands, h⟩ := ih
    cases turnover hx crew n with
    | same hcrews hstaff =>
      exact ⟨hands, h.step (fun c hc => h.mustered c (hcrews ▸ hc)) (fun hc => h.nobody (hcrews ▸ hc)) hstaff⟩
    | founds hnone hsome hstaff =>
      obtain rfl := h.nobody hnone
      refine ⟨[], h.step (fun c hc => ?_) (fun _ => rfl) hstaff⟩
      obtain rfl := Option.some.inj (hsome.symm.trans hc)
      exact .new
    | closes hcrews hstaff =>
      refine ⟨hands, h.step (fun c hc => ?_) (fun hc => ?_) hstaff⟩
      · rw [hcrews] at hc
        obtain ⟨c₀, hc₀, rfl⟩ := Option.map_eq_some_iff.1 hc
        exact .closes (h.mustered c₀ hc₀)
      · rw [hcrews] at hc
        exact h.nobody (Option.map_eq_none_iff.1 hc)
    | hires name hnew hcrews hstaff =>
      have hlt := hknown n (by rw [hnew]; rfl)
      obtain ⟨c, hc⟩ : ∃ c, (x.state n).crews[crew]? = some c := ⟨_, List.getElem?_eq_getElem hlt⟩
      rw [hc, Option.map_some] at hcrews
      refine ⟨hands ++ [⟨c.next, name, .counted⟩], fun c' hc' => ?_, fun hnone => ?_, ?_, ?_, ?_⟩
      · obtain rfl := Option.some.inj (hcrews.symm.trans hc')
        rw [CrewState.enrol_eq]
        exact .counts (.lists (.reserves name (h.mustered c hc)))
      · rw [hcrews] at hnone
        cases hnone
      · rw [hired_succ (Nat.zero_le n), hnew, List.map_append, h.hired]
        rfl
      · intro hand hhand
        rcases List.mem_append.1 hhand with hold | hnewcomer
        · exact h.settled hand hold
        · rw [List.mem_singleton.1 hnewcomer]
          exact .inl rfl
      · rw [hstaff, hc, entriesOf_append, h.staff]
        rfl
    | @leaves number name before after hcrews hstaff hstaff' =>
      obtain ⟨first, hand, last, rfl, hentry, hfirst, hlast⟩ := exists_of_entriesOf (h.staff.trans hstaff)
      obtain rfl := Hand.eq_of_entry? hentry (h.settled hand (by simp))
      refine ⟨first ++ ⟨number, name, .released⟩ :: last, fun c hc => ?_, fun hnone => ?_, ?_, ?_, ?_⟩
      · rw [hcrews] at hc
        obtain ⟨c₀, hc₀, rfl⟩ := Option.map_eq_some_iff.1 hc
        exact .releases (.strikes (h.mustered c₀ hc₀))
      · rw [hcrews] at hnone
        exact absurd (h.nobody (Option.map_eq_none_iff.1 hnone)) (by simp)
      · rw [hired_succ (Nat.zero_le n), hiredAt_eq_none (by rw [hstaff, hstaff']; simp), ← h.hired]
        simp
      · intro hand hhand
        rcases List.mem_append.1 hhand with hfirst | hrest
        · exact h.settled hand (List.mem_append_left _ hfirst)
        · rcases List.mem_cons.1 hrest with rfl | hlast
          · exact .inr rfl
          · exact h.settled hand (List.mem_append_right _ (List.mem_cons_of_mem _ hlast))
      · rw [hstaff', entriesOf_middle, hfirst, hlast]
        rfl

/-- Workers are told by name in their order. -/
theorem workers_sorted (hx : x.IsProper) (hknown : x.HiresKnown crew) (n : Nat) :
    ((x.state n).workers crew).Pairwise (· ≤ ·) := by
  obtain ⟨hands, hmusters⟩ := musters hx hknown n
  rw [State.workers]
  cases hc : (x.state n).crews[crew]? with
  | none => exact .nil
  | some c => exact (hmusters.mustered c hc).accounts.names_sorted.1

/-- The numbers of those who work for a crew rise. -/
theorem staff_rising (hx : x.IsProper) (hknown : x.HiresKnown crew) (n : Nat) :
    ((x.state n).staff crew).Pairwise fun e e' => e.1 < e'.1 := by
  have hstaffed := staffed hx hknown n
  cases hc : (x.state n).crews[crew]? with
  | none =>
    rw [hstaffed.nobody hc]
    exact .nil
  | some c => exact (hstaffed.fits c hc).rising

/-! ### Leaving the list -/

/-- Whoever is posted comes off its post when its task ends, in whatever way. -/
theorem ends_of_posts {e : Nat × String} (h : (x.state n).posts[t]? = some (some (crew, e)))
    (ending : Ending) : (x.state n).Ends t ((x.state n).finish t ending) := by
  rw [State.posts, List.getElem?_map] at h
  obtain ⟨k, hk, hpost⟩ := Option.map_eq_some_iff.1 h
  refine State.finish_ends ending hk (Bool.eq_false_iff.2 fun hover => ?_)
  rw [Task.post?, hover] at hpost
  cases hpost

/-- Whoever is posted is among the workers. -/
theorem mem_staff_of_posts {e : Nat × String} (h : (x.state n).posts[t]? = some (some (crew, e))) :
    e ∈ (x.state n).staff crew :=
  List.mem_filterMap.2 ⟨_, List.mem_of_getElem? h, if_pos rfl⟩

/-- Whoever is posted keeps its post until its task ends. -/
theorem posts_of_not_ends (hx : x.IsProper) {e : Nat × String}
    (h : (x.state n).posts[t]? = some (some (crew, e))) (hstays : ¬ (x.state n).Ends t (x.state (n + 1))) :
    (x.state (n + 1)).posts[t]? = some (some (crew, e)) := by
  have hkeeps : (x.state n).posts <+: (x.state (n + 1)).posts ∨
      ∃ u, (x.state n).Ends u (x.state (n + 1)) := by
    rcases hx.cases n with ⟨u, -, heffect⟩ | haside | hends
    · exact heffect.posts_cases.imp id fun hends => ⟨u, hends⟩
    · exact .inl (haside.posts ▸ List.prefix_refl _)
    · exact .inr hends
  rcases hkeeps with hprefix | ⟨u, hends⟩
  · obtain ⟨rest, hrest⟩ := hprefix
    rw [← hrest, List.getElem?_append_left (List.getElem?_eq_some_iff.1 h).1, h]
  · have hu : u ≠ t := fun heq => hstays (heq ▸ hends)
    rw [hends.posts, List.getElem?_set_ne hu, h]

/-- **A worker is on the list until its task ends**, and no longer. -/
theorem mem_staff_iff (hx : x.IsProper) (hknown : x.HiresKnown crew) {e : Nat × String}
    (h : (x.state n).posts[t]? = some (some (crew, e))) :
    e ∈ (x.state (n + 1)).staff crew ↔ ¬ (x.state n).Ends t (x.state (n + 1)) := by
  refine ⟨fun hmem hends => ?_, fun hstays => mem_staff_of_posts (posts_of_not_ends hx h hstays)⟩
  obtain ⟨before, after, hstaff, hstaff'⟩ := staffOf_set crew h
  have hstaff : (x.state n).staff crew = before ++ e :: after := hstaff.trans (by simp [staffOf])
  have hafter : (x.state (n + 1)).staff crew = before ++ after := by rwa [← hends.posts] at hstaff'
  have hrising := staff_rising hx hknown n
  rw [hstaff] at hrising
  obtain ⟨-, hlater, hearlier⟩ := List.pairwise_append.1 hrising
  rw [hafter] at hmem
  rcases List.mem_append.1 hmem with hbefore | hafter
  · exact Nat.lt_irrefl _ (hearlier e hbefore e List.mem_cons_self)
  · exact Nat.lt_irrefl _ ((List.pairwise_cons.1 hlater).1 e hafter)

/-! ### Names -/

/-- **A module's worker goes by the name of the module and its label.** -/
theorem startWorker_hires {kit : Kit} {label : String} {job : A.Job}
    {next : Unit → Program A Outcome} {calls : Calls A} {passes : List Pass} (hij : i ≤ j)
    (huncut : x.Uncut t calls.length i j)
    (hk : (x.state i).core t = some ⟨.running (kit.startWorker label job >>= next), calls, passes⟩) :
    (∀ m, i ≤ m → m ≤ j → x.Amid t calls (kit.startWorker label job) next i m) ∨
      ∃ n tr, n ≤ j ∧ x.Returns t calls (kit.startWorker label job) next i n tr () ∧
        ∃ m, i ≤ m ∧ m < n ∧ x.turn m = some t ∧
          x.hiredAt kit.crew m = some (kit.name ++ "/" ++ label) := by
  rcases followed huncut hij hk with hamid | ⟨n, tr, ⟨⟩, hn, hreturns⟩
  · exact .inl hamid
  refine .inr ⟨n, tr, hn, hreturns, ?_⟩
  obtain ⟨_, tr₁, rfl, hrun⟩ := Program.run_ask_bind_iff.1 hreturns.run
  obtain ⟨_, tr₂, rfl, -⟩ := Program.run_perform_iff.1 hrun
  obtain ⟨m, m', hm, hm', hanswers⟩ := hreturns.through.answers (List.mem_cons_of_mem _ List.mem_cons_self)
  obtain ⟨rfl, next', passes', hbefore, -⟩ := hanswers.at_once (fun _ _ h => h) (fun _ _ _ h => h)
  refine ⟨m, hm, hm', hanswers.turn, ?_⟩
  rw [hiredAt, hanswers.turn]
  show ((x.state m).core t).bind _ = _
  rw [hbefore]
  exact if_pos rfl

/-! ### Waiting -/

/-- Where nobody has been hired since the wait for a crew began, a crew that is done has no workers. -/
theorem staff_of_isDone (hx : x.IsProper) (hknown : x.HiresKnown crew) (hmn : m < n)
    (hbegun : ∀ c, (x.state (m + 1)).crews[crew]? = some c → c.emptied = false)
    (hnobody : x.hired crew m n = [])
    (hdone : (((x.state n).crews[crew]?).map CrewState.isDone).getD true = true) :
    (x.state n).staff crew = [] := by
  obtain ⟨k, hmk, hkn, hstaff⟩ := rested_of_isDone hx hknown hmn hbegun hdone
  have hsince := staff_sublist hx crew hkn
  have hhired : (x.hired crew k n).Sublist (x.hired crew m n) := hired_sublist (Nat.le_of_lt hmk) hkn
  rw [hnobody] at hhired
  rw [hstaff, List.sublist_nil.1 hhired] at hsince
  exact List.map_eq_nil_iff.1 (List.sublist_nil.1 hsince)

/-- Nobody is named exactly when nobody works for the crew. -/
theorem workers_eq_nil_iff (hx : x.IsProper) (hknown : x.HiresKnown crew) :
    (x.state n).workers crew = [] ↔ (x.state n).staff crew = [] := by
  have hlength := (staffed hx hknown n).workers_perm.length_eq
  rw [List.length_map] at hlength
  rw [← List.length_eq_zero_iff, hlength, List.length_eq_zero_iff]

/-- A crew that has been closed is done when nobody works for it. -/
theorem isDone_of_staff (hx : x.IsProper) (hknown : x.HiresKnown crew) (hmn : m ≤ n) {c : CrewState}
    (hc : (x.state m).crews[crew]? = some c) (hclosed : c.closed = true) (hstaff : (x.state n).staff crew = []) :
    (((x.state n).crews[crew]?).map CrewState.isDone).getD true = true := by
  obtain ⟨c', hc', hstays⟩ := crew_keeps hx hmn hc
  have htracked := ((staffed hx hknown n).fits c' hc').tracked
  rw [hstaff] at htracked
  rw [hc', Option.map_some, Option.getD_some, CrewState.isDone, hstays hclosed, htracked]
  rfl

/-- Whoever waits for a closed crew is held up only as long as somebody works for it and there is time. -/
theorem held_up (hx : x.IsProper) (hknown : x.HiresKnown crew) (hmn : m ≤ n) {c : CrewState}
    (hc : (x.state m).crews[crew]? = some c) (hclosed : c.closed = true) {due : Nat}
    {next : Bool → Program A Outcome} {calls : Calls A} {passes : List Pass}
    (hk : (x.state n).core t = some ⟨.waiting (.crew crew due next), calls, passes⟩)
    (hheld : (x.state n).advance w t = none) :
    (x.state n).staff crew ≠ [] ∧ (x.state n).now < due := by
  obtain ⟨hbusy, hearly⟩ := not_or.1 fun hover => by
    obtain ⟨s', hs'⟩ := State.exists_advance_of_crew (w := w) hk hover
    cases hheld.symm.trans hs'
  exact ⟨fun hstaff => hbusy (isDone_of_staff hx hknown hmn hc hclosed hstaff), Nat.lt_of_not_le hearly⟩

/-- Task `t` waits for a crew from step `m` on; with step `n` the wait is decided; and after `e` steps the task
goes on with the names of those that have outlasted it. -/
structure Dissolves (x : Execution w) (t : TaskId) (calls : Calls A) (passes : List Pass) (crew : CrewId)
    (grace : Duration) (next : List String → Program A Outcome) (m n e : Nat) (stuck : List String) :
    Prop where
  asks : x.turn m = some t ∧ (x.state m).IsAboutTo t (.awaitCrew crew grace)
  decides : m < n ∧ x.turn n = some t ∧ ∃ next', (x.state n).core t
    = some ⟨.waiting (.crew crew ((x.state m).now + grace.ceilMillis) next'), calls, passes⟩
  tells : n < e ∧ (x.state e).core t = some ⟨.running (next stuck), calls, passes⟩

/-- On a single thread nobody comes and nobody leaves before the names have been told. -/
theorem report_followed (hsingle : x.IsSingleThreaded) {grace : Duration} {emptied : Bool}
    {next : List String → Program A Outcome} {calls : Calls A} {passes : List Pass}
    (hturn : x.turn n = some t)
    (hk : (x.state (n + 1)).core t
      = some ⟨.running (Crew.report crew grace emptied >>= next), calls, passes⟩) :
    ∃ e stuck, n < e ∧ (x.state e).core t = some ⟨.running (next stuck), calls, passes⟩ ∧
      stuck = if emptied then [] else (x.state (n + 1)).workers crew := by
  cases emptied with
  | true => exact ⟨n + 1, [], Nat.lt_succ_self n, hk, rfl⟩
  | false =>
    obtain ⟨hturn', hnames⟩ := goes_on hsingle hturn hk
    have htold : (x.state (n + 2)).core t = some ⟨.running (.perform
        (.record (Crew.overdue grace ((x.state (n + 1)).workers crew)))
        fun _ => next ((x.state (n + 1)).workers crew)), calls, passes⟩ := by
      rw [hnames]
      exact State.core_setStatus hk _
    obtain ⟨-, hrecorded⟩ := goes_on hsingle hturn' htold
    refine ⟨n + 3, _, by omega, ?_, rfl⟩
    rw [hrecorded]
    exact State.core_setStatus (s := (x.state (n + 2)).log _) htold _

/-- **How a wait for a crew comes out on a single thread.**  It is decided with one step, and if nobody has
been hired since it began, then nobody is named exactly if nobody works for the crew at that moment; otherwise
the time is over, and those are named who do. -/
theorem dissolve_followed (hx : x.IsProper) (hsingle : x.IsSingleThreaded) (hknown : x.HiresKnown crew)
    {grace : Duration} {next : List String → Program A Outcome} {calls : Calls A} {passes : List Pass}
    (hfounded : crew < (x.state i).crews.length) (hij : i ≤ j) (huncut : x.Uncut t calls.length i j)
    (hk : (x.state i).core t = some ⟨.running (Crew.dissolve crew grace >>= next), calls, passes⟩) :
    (x.Amid t calls (Crew.dissolve crew grace) next i j ∧
      ((x.state j).advance w t = none → (x.state j).staff crew ≠ [] ∧
        ∃ m, i ≤ m ∧ m < j ∧ x.turn m = some t ∧ (x.state m).IsAboutTo t (.awaitCrew crew grace) ∧
          (x.state j).now < (x.state m).now + grace.ceilMillis)) ∨
      ∃ m n e stuck, i ≤ m ∧ n < j ∧ x.Dissolves t calls passes crew grace next m n e stuck ∧
        (x.hired crew m n = [] →
          (stuck = [] ↔ (x.state n).staff crew = []) ∧
          ((x.state n).staff crew ≠ [] →
            (x.state m).now + grace.ceilMillis ≤ (x.state n).now ∧ stuck = (x.state n).workers crew)) := by
  rw [Crew.dissolve_eq] at hk ⊢
  -- The task asks for the wait.
  rcases first_turn huncut hij hk with hrests | ⟨m, k₁, hm, hasks⟩
  · refine .inl ⟨.idle (.start _) (.nil i) hij (hrests.last hij), fun hstuck => ?_⟩
    obtain ⟨s', hs'⟩ := State.advance_of_isRunning (w := w) (State.isRunning_of_core (hrests.last hij))
    cases hstuck.symm.trans hs'
  obtain ⟨hwaits, hcrews⟩ := awaitCrew_step hasks.turn hasks.before
  obtain rfl := Option.some.inj (hasks.after.symm.trans hwaits)
  obtain ⟨c, hc, -⟩ := crew_keeps hx hasks.le (List.getElem?_eq_getElem hfounded)
  rw [hc] at hcrews
  -- It waits, and the wait is decided.
  rcases first_turn (huncut.tail (Nat.le_succ_of_le hasks.le)) hm hwaits with hrests | ⟨n, k₂, hn, hdecides⟩
  · refine .inl ⟨.busy (.start _) (.nil i) hasks.le hm
      ⟨hasks.turn, ⟨passes, hasks.before⟩, fun l hl hlj => ?_⟩, fun hstuck => ?_⟩
    · exact ⟨_, hrests.core l hl hlj, .inl ⟨_, passes, ⟨_, rfl⟩, rfl⟩⟩
    · obtain ⟨hstaff, hearly⟩ := held_up hx hknown hm hcrews rfl (hrests.last hm) hstuck
      exact ⟨hstaff, m, hasks.le, hm, hasks.turn, ⟨_, _, _, hasks.before⟩, hearly⟩
  obtain ⟨emptied, hstate, hdone, hdue⟩ := State.advance_crew (advance_of_turn hdecides.turn) hdecides.after
    hdecides.goesOn hdecides.depth hdecides.before
  have hgoes : (x.state (n + 1)).core t
      = some ⟨.running (Crew.report crew grace emptied >>= next), calls, passes⟩ := by
    rw [hstate]
    exact State.core_setStatus hdecides.before _
  have hworkers : (x.state (n + 1)).workers crew = (x.state n).workers crew := by
    rw [hstate]
    rfl
  obtain ⟨e, stuck, he, hcore, hstuck⟩ := report_followed hsingle hdecides.turn hgoes
  rw [hworkers] at hstuck
  have hmn : m < n := hdecides.le
  refine .inr ⟨m, n, e, stuck, hasks.le, hn, ⟨⟨hasks.turn, _, _, _, hasks.before⟩,
    ⟨hmn, hdecides.turn, _, hdecides.before⟩, he, hcore⟩, fun hnobody => ?_⟩
  cases emptied with
  | true =>
    have hbegun : ∀ c', (x.state (m + 1)).crews[crew]? = some c' → c'.emptied = false := fun c' hc' => by
      rw [← Option.some.inj (hcrews.symm.trans hc')]
    have hstaff := staff_of_isDone hx hknown hmn hbegun hnobody hdone.symm
    exact ⟨⟨fun _ => hstaff, fun _ => hstuck⟩, fun hbusy => absurd hstaff hbusy⟩
  | false =>
    have hstuck : stuck = (x.state n).workers crew := hstuck
    exact ⟨hstuck ▸ workers_eq_nil_iff hx hknown, fun _ => ⟨hdue rfl, hstuck⟩⟩

end Execution

end Orchestra.Machine

namespace Orchestra

open Machine

variable {A : Application} {w : World A}

/-! ### The main result -/

/-- **The list of a crew's workers is exact.**

However the parts of taking on workers and letting them go follow one another, no two workers have the same
number, not even as a word of 64 bits as long as there are enough of them; the names that are told are, in
order and each as often as it occurs, those of the workers on the list; and whoever is counted no longer is off
the list.

In an execution the workers on the list are at every moment exactly those that have been hired and whose
task has not ended, in whatever way tasks end, and a module's worker goes by the name of the module and its
label.

On a single thread, if nobody is hired in the meantime, a wait for a crew ends without a name exactly if
nobody works for the crew at the moment at which the wait is decided; otherwise the time is over, and those are
named who are on the list at that moment. -/
theorem worker_list_exact (x : Execution w) (hx : x.IsProper) (crew : CrewId) (hknown : x.HiresKnown crew) :
    (∀ (c : CrewState) (hands : List Hand), c.Mustered hands →
      (hands.map Hand.number).Nodup ∧
      (hands.length ≤ UInt64.size → (hands.map fun h => UInt64.ofNat h.number).Nodup) ∧
      (c.names.Pairwise (· ≤ ·) ∧ c.names.Perm ((entriesOf hands).map Prod.snd)) ∧
      c.tracked = hands.countP Hand.isCounted ∧
      ∀ h ∈ hands, h.stint = .released → ∀ e ∈ c.alive, e.1 ≠ h.number) ∧
    (∀ n,
      -- Everybody is on the list who has been hired and has not ended,
      (∃ hands, x.Musters crew n hands) ∧
      ((x.state n).workers crew).Pairwise (· ≤ ·) ∧
      ((x.state n).workers crew).Perm (((x.state n).staff crew).map Prod.snd) ∧
      (((x.state n).staff crew).map Prod.fst).Nodup ∧
      -- and the next step takes off the list whom it ends, and nobody else.
      ∀ t number name, (x.state n).posts[t]? = some (some (crew, number, name)) →
        (∀ ending, (x.state n).Ends t ((x.state n).finish t ending)) ∧
        (number, name) ∈ (x.state n).staff crew ∧
        ((number, name) ∈ (x.state (n + 1)).staff crew ↔ ¬ (x.state n).Ends t (x.state (n + 1)))) ∧
    (∀ (kit : Kit) (label : String) (job : A.Job) (next : Unit → Program A Outcome) (t : TaskId)
      (calls : Calls A) (passes : List Pass) (i j : Nat), kit.crew = crew → i ≤ j →
      x.Uncut t calls.length i j →
      (x.state i).core t = some ⟨.running (kit.startWorker label job >>= next), calls, passes⟩ →
      (∀ m, i ≤ m → m ≤ j → x.Amid t calls (kit.startWorker label job) next i m) ∨
      ∃ n tr, n ≤ j ∧ x.Returns t calls (kit.startWorker label job) next i n tr () ∧
        ∃ m, i ≤ m ∧ m < n ∧ x.turn m = some t ∧ x.hiredAt crew m = some (kit.name ++ "/" ++ label)) ∧
    (x.IsSingleThreaded → ∀ (grace : Duration) (next : List String → Program A Outcome) (t : TaskId)
      (calls : Calls A) (passes : List Pass) (i j : Nat), crew < (x.state i).crews.length → i ≤ j →
      x.Uncut t calls.length i j →
      (x.state i).core t = some ⟨.running (Crew.dissolve crew grace >>= next), calls, passes⟩ →
      -- The task is still waiting, and held up only as long as somebody works for the crew and there is time,
      (x.Amid t calls (Crew.dissolve crew grace) next i j ∧
        ((x.state j).advance w t = none → (x.state j).staff crew ≠ [] ∧
          ∃ m, i ≤ m ∧ m < j ∧ x.turn m = some t ∧ (x.state m).IsAboutTo t (.awaitCrew crew grace) ∧
            (x.state j).now < (x.state m).now + grace.ceilMillis)) ∨
      -- or the wait has been decided with step `n`.
      ∃ m n e stuck, i ≤ m ∧ n < j ∧ x.Dissolves t calls passes crew grace next m n e stuck ∧
        (x.hired crew m n = [] →
          (stuck = [] ↔ (x.state n).staff crew = []) ∧
          ((x.state n).staff crew ≠ [] → (x.state m).now + grace.ceilMillis ≤ (x.state n).now ∧
            stuck = (x.state n).workers crew ∧ (x.state n).workers crew ≠ []))) := by
  refine ⟨fun c hands hmustered => ?_, fun n => ?_, ?_, ?_⟩
  · have haccounts := hmustered.accounts
    refine ⟨haccounts.nodup, haccounts.nodup_words, haccounts.names_sorted, haccounts.tracked,
      fun h hh hreleased => ?_⟩
    obtain ⟨before, after, rfl⟩ := List.append_of_mem hh
    obtain ⟨number, name, stint⟩ := h
    obtain rfl : stint = .released := hreleased
    exact haccounts.not_mem_alive
  · obtain ⟨hands, hmusters⟩ := Execution.musters hx hknown n
    have hnumbers : (((x.state n).staff crew).map Prod.fst).Nodup :=
      List.pairwise_map.2 ((Execution.staff_rising hx hknown n).imp Nat.ne_of_lt)
    exact ⟨⟨hands, hmusters⟩, Execution.workers_sorted hx hknown n,
      (Execution.staffed hx hknown n).workers_perm, hnumbers, fun t number name hpost =>
        ⟨Execution.ends_of_posts hpost, Execution.mem_staff_of_posts hpost,
          Execution.mem_staff_iff hx hknown hpost⟩⟩
  · rintro kit label job next t calls passes i j rfl hij huncut hk
    exact Execution.startWorker_hires hij huncut hk
  · intro hsingle grace next t calls passes i j hfounded hij huncut hk
    refine (Execution.dissolve_followed hx hsingle hknown hfounded hij huncut hk).imp_right ?_
    rintro ⟨m, n, e, stuck, hm, hn, hdissolves, hends⟩
    refine ⟨m, n, e, stuck, hm, hn, hdissolves, fun hnobody => ⟨(hends hnobody).1, fun hstaff => ?_⟩⟩
    obtain ⟨hdue, hstuck⟩ := (hends hnobody).2 hstaff
    exact ⟨hdue, hstuck, fun hnil => hstaff ((Execution.workers_eq_nil_iff hx hknown).1 hnil)⟩

/-- A job is done at once, or never. -/
def Application.shifts : Application where
  Job := Bool
  Effect := Empty
  Answer _ := Unit
  Memory := Unit
  perform e := e.elim

/-- What whoever has a job does. -/
def Program.shift : Bool → Program .shifts Outcome
  | true => .done (.ok ())
  | false => .perform .hang nofun

/-- A world in which whoever is called does nothing. -/
def World.shifts : World .shifts := ⟨.sample, fun _ => .done (.ok ()), Program.shift⟩

/-- A module that starts workers of the first crew. -/
def Kit.sample : Kit := ⟨0, "gateway", .gateway, ⟨4⟩, 0, 0, 0⟩

/-- Waits for ever, whoever has been named. -/
def Program.idle (_ : List String) : Program .shifts Outcome := .perform .hang nofun

/-- Two workers of one name are started, and waited for. -/
def Program.shifts : Program .shifts Outcome := do
  let _ ← .ask .newCrew
  Kit.sample.startWorker "beat" true
  Kit.sample.startWorker "beat" false
  Crew.dissolve 0 (.ofMillis 3) >>= Program.idle

/-- The main task waits for two workers, and goes on when the time is over. -/
def Machine.Execution.shifts : Execution World.shifts :=
  .directed World.shifts 1 Program.shifts ()
    (List.replicate 6 (.step 0) ++ [.park 0, .step 1, .step 2, .tick] ++ List.replicate 4 (.step 0))

theorem Machine.Execution.shifts_hiresKnown : Execution.shifts.HiresKnown 0 := by
  have hmoves : ∀ n, n < 15 → (Execution.shifts.hiredAt 0 n).isSome →
      0 < (Execution.shifts.state n).crews.length := by decide
  intro n hhired
  refine hmoves n (Nat.lt_of_not_le fun hn => ?_) hhired
  have hturn : Execution.shifts.turn n = none := Execution.directed_turn hn
  rw [Execution.hiredAt, hturn] at hhired
  cases hhired

theorem Machine.Execution.shifts_isSingleThreaded : Execution.shifts.IsSingleThreaded :=
  Execution.isSingleThreaded_of (m := 15) (by decide) fun _ hn => Execution.directed_turn hn

/-- Both workers are on the list under one name, and the one that outlasts the wait is named. -/
theorem worker_list_exact_shifts :
    (Execution.shifts.state 6).workers 0 = ["gateway/beat", "gateway/beat"] ∧
    ∃ m e, Execution.shifts.Dissolves 0 [] [] 0 (.ofMillis 3) Program.idle m 11 e ["gateway/beat"] := by
  obtain ⟨-, -, -, hdissolve⟩ := worker_list_exact Execution.shifts Execution.directed_isProper 0
    Execution.shifts_hiresKnown
  refine ⟨by decide, ?_⟩
  rcases hdissolve Execution.shifts_isSingleThreaded (.ofMillis 3) Program.idle 0 [] [] 6 14 (by decide)
      (by decide) (Execution.uncut_of_isWithin (by decide)) rfl with
    ⟨hamid, -⟩ | ⟨m, n, e, stuck, hm, hn, hdissolves, hends⟩
  · -- A wait for a crew asks for nothing that cannot be answered.
    obtain ⟨op, hop, hserves⟩ := hamid.serves (Crew.dissolve_dismisses ..) rfl rfl
    cases hserves
    exact hop.elim
  · obtain ⟨-, hturn, next', hwaits⟩ := hdissolves.decides
    have hmoment : ∀ n, n < 14 → Execution.shifts.turn n = some 0 →
        (Execution.shifts.state n).isRunning 0 = false → n = 11 := by decide
    obtain rfl := hmoment n hn hturn (by rw [State.isRunning, hwaits])
    have hnobody : (Execution.shifts.hired 0 m 11).Sublist (Execution.shifts.hired 0 6 11) :=
      Execution.hired_sublist hm (Nat.le_of_lt hdissolves.decides.1)
    have hstaff : (Execution.shifts.state 11).staff 0 ≠ [] := by decide
    obtain ⟨-, rfl, -⟩ := (hends (List.sublist_nil.1 hnobody)).2 hstaff
    exact ⟨m, e, hdissolves⟩

end Orchestra
