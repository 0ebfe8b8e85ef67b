import Orchestra.Proofs.Course
import Orchestra.Proofs.Tokens
import Orchestra.Proofs.Tracing

/-!
# The workers of a crew

A crew knows who works for it.  To close it is to wait for it: it takes on workers all the same.

* `CrewState.Fits`, `State.Staffed` — a crew counts and names those who work for it and have not ended;
* `State.Turnover` — what one step does to one crew;
* `Execution.hired` — whom a crew was given between two steps;
* `Execution.staff_sublist` — nobody else comes to work for it;
* `Execution.rested` — if a crew became empty during a wait, there was a moment without workers;
* `dissolve_run` — the two ways in which a wait for a crew comes to its end;
* `shutdown_leaves_workers` — who works for a crew after a shutdown.
-/

namespace Orchestra.Machine

variable {A : Application}

/-! ### A crew and those who work for it -/

/-- A crew counts and names the given workers; the numbers are handed out one after another. -/
structure CrewState.Fits (c : CrewState) (staff : List (Nat × String)) : Prop where
  alive : c.alive = staff
  tracked : c.tracked = staff.length
  rising : staff.Pairwise fun e e' => e.1 < e'.1
  below : ∀ e ∈ staff, e.1 < c.next

namespace CrewState.Fits

variable {c : CrewState} {staff before after : List (Nat × String)} {number : Nat} {name : String}

theorem new : ({} : CrewState).Fits [] := ⟨rfl, rfl, .nil, nofun⟩

theorem close (h : c.Fits staff) : ({ c with closed := true, emptied := false } : CrewState).Fits staff :=
  ⟨h.alive, h.tracked, h.rising, h.below⟩

theorem enrol (h : c.Fits staff) (name : String) : (c.enrol name).1.Fits (staff ++ [(c.next, name)]) where
  alive := by rw [CrewState.enrol, h.alive]
  tracked := by rw [CrewState.enrol, h.tracked, List.length_append, List.length_singleton]
  rising := by
    refine List.pairwise_append.2 ⟨h.rising, List.pairwise_singleton _ _, fun e he e' he' => ?_⟩
    rw [List.mem_singleton.1 he']
    exact h.below e he
  below e he := by
    rcases List.mem_append.1 he with he | he
    · exact Nat.lt_succ_of_lt (h.below e he)
    · rw [List.mem_singleton.1 he]
      exact Nat.lt_succ_self _

/-- A worker is known by its number. -/
theorem filter_eq (h : c.Fits (before ++ (number, name) :: after)) :
    (before ++ (number, name) :: after).filter (fun e => e.1 ≠ number) = before ++ after := by
  obtain ⟨-, hafter, hbetween⟩ := List.pairwise_append.1 h.rising
  obtain ⟨hbeyond, -⟩ := List.pairwise_cons.1 hafter
  have hbefore : ∀ e ∈ before, e.1 ≠ number := fun e he =>
    Nat.ne_of_lt (hbetween e he _ List.mem_cons_self)
  have hrest : ∀ e ∈ after, e.1 ≠ number := fun e he => Nat.ne_of_gt (hbeyond e he)
  rw [List.filter_append, List.filter_cons_of_neg (by simp)]
  rw [List.filter_eq_self.2 fun e he => decide_eq_true (hbefore e he),
    List.filter_eq_self.2 fun e he => decide_eq_true (hrest e he)]

theorem dismiss (h : c.Fits (before ++ (number, name) :: after)) :
    (c.dismiss number).uncount.Fits (before ++ after) where
  alive := by
    show c.alive.filter _ = _
    rw [h.alive, h.filter_eq]
  tracked := by
    show c.tracked - 1 = _
    rw [h.tracked, List.length_append, List.length_append, List.length_cons]
    omega
  rising := h.rising.sublist ((List.sublist_cons_self _ _).append_left before)
  below e he := h.below e (((List.sublist_cons_self _ _).append_left before).subset he)

/-- A crew is told to be done when its last worker has left it. -/
theorem emptied_dismiss (h : c.Fits (before ++ (number, name) :: after))
    (hemptied : (c.dismiss number).uncount.emptied = true) :
    c.emptied = true ∨ before ++ after = [] := by
  have hor : (c.emptied || (c.closed && c.tracked == 1)) = true := hemptied
  rcases Bool.or_eq_true_iff.1 hor with hbefore | hlast
  · exact .inl hbefore
  · right
    have hone : c.tracked = 1 := beq_iff_eq.1 (Bool.and_eq_true_iff.1 hlast).2
    rw [h.tracked, List.length_append, List.length_cons] at hone
    exact List.eq_nil_of_length_eq_zero (by rw [List.length_append]; omega)

end CrewState.Fits

/-- A crew of the state knows exactly those who work for it; nobody works for one that does not exist. -/
structure State.Staffed (crew : CrewId) (s : State A) : Prop where
  fits : ∀ c, s.crews[crew]? = some c → c.Fits (s.staff crew)
  nobody : s.crews[crew]? = none → s.staff crew = []

/-! ### What one step does to one crew -/

/-- What one step does to one crew and those who work for it; `newcomer` is whom somebody hires for it. -/
inductive State.Turnover (crew : CrewId) (s s' : State A) (newcomer : Option String) : Prop where
  | same : s'.crews[crew]? = s.crews[crew]? → s'.staff crew = s.staff crew → Turnover crew s s' newcomer
  | founds : s.crews[crew]? = none → s'.crews[crew]? = some {} → s'.staff crew = s.staff crew →
      Turnover crew s s' newcomer
  | closes : s'.crews[crew]? = (s.crews[crew]?).map (fun c => { c with closed := true, emptied := false }) →
      s'.staff crew = s.staff crew → Turnover crew s s' newcomer
  | hires (name : String) : newcomer = some name →
      s'.crews[crew]? = (s.crews[crew]?).map (fun c => (c.enrol name).1) →
      s'.staff crew = s.staff crew ++ [(((s.crews[crew]?).map CrewState.next).getD 0, name)] →
      Turnover crew s s' newcomer
  | leaves (number : Nat) (name : String) {before after : List (Nat × String)} :
      s'.crews[crew]? = (s.crews[crew]?).map (fun c => (c.dismiss number).uncount) →
      s.staff crew = before ++ (number, name) :: after → s'.staff crew = before ++ after →
      Turnover crew s s' newcomer

/-- Whom a task hires for a crew with its next step. -/
def Doing.hires? (crew : CrewId) : Doing A → Option String
  | running (.perform (.hire c name _) _) => if c = crew then some name else none
  | _ => none

section Staff

variable {posts : List (Option (CrewId × Nat × String))}

theorem staffOf_append (crew : CrewId) (posts posts' : List (Option (CrewId × Nat × String))) :
    staffOf crew (posts ++ posts') = staffOf crew posts ++ staffOf crew posts' :=
  List.filterMap_append

/-- Who works for a crew once a post has come to an end. -/
theorem staffOf_set (crew : CrewId) {t : TaskId} {post : Option (CrewId × Nat × String)}
    (h : posts[t]? = some post) :
    ∃ before after, staffOf crew posts = before ++ (staffOf crew [post] ++ after) ∧
      staffOf crew (posts.set t none) = before ++ after := by
  obtain ⟨hlt, rfl⟩ := List.getElem?_eq_some_iff.1 h
  refine ⟨staffOf crew (posts.take t), staffOf crew (posts.drop (t + 1)), ?_, ?_⟩
  · rw [← staffOf_append, ← staffOf_append, List.singleton_append, List.getElem_cons_drop,
      List.take_append_drop]
  · rw [List.set_eq_take_append_cons_drop, if_pos hlt, staffOf_append]
    rfl

end Staff

namespace State

variable {w : World A} {s s' : State A} {t : TaskId} {crew : CrewId} {newcomer : Option String}

theorem Ends.turnover (h : s.Ends t s') (crew : CrewId) (newcomer : Option String) :
    s.Turnover crew s' newcomer := by
  obtain ⟨k, hk, -, hcrews⟩ := h.task
  have hpost : s.posts[t]? = some k.post? := by rw [State.posts, List.getElem?_map, hk]; rfl
  obtain ⟨before, after, hstaff, hstaff'⟩ := staffOf_set crew hpost
  rw [← h.posts] at hstaff'
  have hothers : (∀ number name, k.post? ≠ some (crew, number, name)) → s.Turnover crew s' newcomer := by
    intro hnone
    refine .same ?_ ?_
    · rw [hcrews]
      unfold crewsWithout
      split
      · next c number name hsome =>
        exact List.getElem?_modify_ne _ _ fun heq => hnone number name (heq ▸ hsome)
      · rfl
    · have hnobody : staffOf crew [k.post?] = [] := by
        cases hp : k.post? with
        | none => rfl
        | some p =>
          obtain ⟨c, number, name⟩ := p
          have hne : c ≠ crew := fun heq => hnone number name (heq ▸ hp)
          simp [staffOf, hne]
      rw [staff, staff, hstaff, hstaff', hnobody, List.nil_append]
  cases hp : k.post? with
  | none => exact hothers (by simp [hp])
  | some p =>
    obtain ⟨c, number, name⟩ := p
    by_cases hc : c = crew
    · subst hc
      refine .leaves number name ?_ (hstaff.trans ?_) hstaff'
      · rw [hcrews, hp, crewsWithout, List.getElem?_modify_eq]
        rfl
      · rw [hp]
        simp [staffOf]
    · exact hothers fun number' name' heq => hc (by rw [hp] at heq; cases heq; rfl)

theorem Pauses.turnover (h : s.Pauses s') (crew : CrewId) (newcomer : Option String) :
    s.Turnover crew s' newcomer := by
  rcases h with haside | ⟨t, hends⟩
  · exact .same (by rw [haside.crews]) (by rw [staff, staff, haside.posts])
  · exact hends.turnover crew newcomer

/-- **One step does one of these things to a crew.** -/
theorem Effect.turnover (h : s.Effect t s') (crew : CrewId) :
    s.Turnover crew s' ((s.core t).bind fun k => k.doing.hires? crew) := by
  have hsame : s'.crews = s.crews → s'.posts = s.posts →
      s.Turnover crew s' ((s.core t).bind fun k => k.doing.hires? crew) := fun hcrews hposts =>
    .same (by rw [hcrews]) (by rw [staff, staff, hposts])
  cases h with
  | spares h => exact hsame h.crews h.posts
  | makesToken _ _ _ hcrews hposts => exact hsame hcrews hposts
  | cancels _ _ _ hcrews hposts => exact hsame hcrews hposts
  | makesCrew _ _ hcrews hposts =>
    have hstaff : s'.staff crew = s.staff crew := by rw [staff, staff, hposts]
    rcases Nat.lt_trichotomy crew s.crews.length with hlt | rfl | hlt
    · exact .same (by rw [hcrews, List.getElem?_append_left hlt]) hstaff
    · exact .founds (List.getElem?_eq_none (Nat.le_refl _)) (by rw [hcrews, List.getElem?_concat_length])
        hstaff
    · refine .same ?_ hstaff
      rw [hcrews, List.getElem?_eq_none (Nat.le_of_lt hlt), List.getElem?_eq_none]
      rw [List.length_append]
      exact hlt
  | closesCrew c _ _ _ hcrews hposts =>
    have hstaff : s'.staff crew = s.staff crew := by rw [staff, staff, hposts]
    by_cases hc : c = crew
    · subst hc
      exact .closes (by rw [hcrews, List.getElem?_modify_eq]; rfl) hstaff
    · exact .same (by rw [hcrews, List.getElem?_modify_ne _ _ hc]) hstaff
  | spawns _ _ _ _ hcrews hposts =>
    refine .same (by rw [hcrews]) ?_
    rw [staff, staff, hposts, staffOf_append]
    exact List.append_nil _
  | hires c name job habout _ hcrews hposts =>
    obtain ⟨next, calls, passes, hcore⟩ := habout
    have hstaff : s'.staff crew = s.staff crew ++ staffOf crew [some (c,
        ((s.crews[c]?).map CrewState.next).getD 0, name)] := by
      rw [staff, staff, hposts, staffOf_append]
    by_cases hc : c = crew
    · subst hc
      refine .hires name ?_ (by rw [hcrews, List.getElem?_modify_eq]; rfl) (hstaff.trans ?_)
      · rw [hcore]
        exact if_pos rfl
      · simp [staffOf]
    · refine .same (by rw [hcrews, List.getElem?_modify_ne _ _ hc]) (hstaff.trans ?_)
      simp [staffOf, hc]
  | ends h => exact h.turnover crew _

/-- A crew goes on knowing who works for it, unless somebody is hired before there is such a crew. -/
theorem Staffed.turnover (hs : s.Staffed crew) (h : s.Turnover crew s' newcomer)
    (hknown : newcomer.isSome → crew < s.crews.length) : s'.Staffed crew := by
  -- What a crew becomes that was there, and that there is none if there was none.
  have hchange : ∀ (f : CrewState → CrewState), s'.crews[crew]? = (s.crews[crew]?).map f →
      (∀ c, s.crews[crew]? = some c → (f c).Fits (s'.staff crew)) →
      (s.crews[crew]? = none → s'.staff crew = []) → s'.Staffed crew := by
    intro f hcrews hfits hnobody
    refine ⟨fun c' hc' => ?_, fun hnone => ?_⟩
    · rw [hcrews] at hc'
      obtain ⟨c, hc, rfl⟩ := Option.map_eq_some_iff.1 hc'
      exact hfits c hc
    · rw [hcrews] at hnone
      exact hnobody (Option.map_eq_none_iff.1 hnone)
  cases h with
  | same hcrews hstaff =>
    refine hchange id (by rw [hcrews, Option.map_id]; rfl) (fun c hc => ?_) fun hnone => ?_
    · rw [hstaff]
      exact hs.fits c hc
    · rw [hstaff, hs.nobody hnone]
  | founds hnone hsome hstaff =>
    refine ⟨fun c hc => ?_, fun hnone' => by rw [hsome] at hnone'; cases hnone'⟩
    obtain rfl := Option.some.inj (hsome.symm.trans hc)
    rw [hstaff, hs.nobody hnone]
    exact .new
  | closes hcrews hstaff =>
    refine hchange _ hcrews (fun c hc => ?_) fun hnone => ?_
    · rw [hstaff]
      exact (hs.fits c hc).close
    · rw [hstaff, hs.nobody hnone]
  | hires name hnew hcrews hstaff =>
    refine hchange _ hcrews (fun c hc => ?_) fun hnone => ?_
    · rw [hstaff, hc, Option.map_some, Option.getD_some]
      exact (hs.fits c hc).enrol name
    · have hlt := hknown (by rw [hnew]; rfl)
      rw [List.getElem?_eq_getElem hlt] at hnone
      cases hnone
  | leaves _ _ hcrews hstaff hstaff' =>
    refine hchange _ hcrews (fun c hc => ?_) fun hnone => ?_
    · have hfits := hs.fits c hc
      rw [hstaff] at hfits
      rw [hstaff']
      exact hfits.dismiss
    · have hnobody := hs.nobody hnone
      rw [hstaff] at hnobody
      exact absurd hnobody (by simp)

/-- Nobody works for a crew but those who did, and the newcomer. -/
theorem Turnover.staff_sublist (h : s.Turnover crew s' newcomer) :
    ((s'.staff crew).map Prod.snd).Sublist ((s.staff crew).map Prod.snd ++ newcomer.toList) := by
  have hsame : s'.staff crew = s.staff crew →
      ((s'.staff crew).map Prod.snd).Sublist ((s.staff crew).map Prod.snd ++ newcomer.toList) := by
    intro heq
    rw [heq]
    exact List.sublist_append_left _ _
  cases h with
  | same _ hstaff => exact hsame hstaff
  | founds _ _ hstaff => exact hsame hstaff
  | closes _ hstaff => exact hsame hstaff
  | hires _ hnew _ hstaff =>
    rw [hstaff, hnew, List.map_append]
    exact List.Sublist.refl _
  | leaves _ _ _ hstaff hstaff' =>
    rw [hstaff, hstaff']
    refine List.Sublist.trans ?_ (List.sublist_append_left _ _)
    exact ((List.sublist_cons_self _ _).append_left _).map _

/-- The names that are told are those of the workers. -/
theorem Staffed.workers_perm (hs : s.Staffed crew) :
    (s.workers crew).Perm ((s.staff crew).map Prod.snd) := by
  cases hc : s.crews[crew]? with
  | none =>
    rw [workers, hc, hs.nobody hc]
    exact .refl _
  | some c =>
    rw [workers, hc, Option.map_some, Option.getD_some, CrewState.names, (hs.fits c hc).alive]
    exact perm_sortBy _

theorem start_staffed (buses : Nat) (memory : A.Memory) : (start buses memory).Staffed crew :=
  ⟨nofun, fun _ => rfl⟩

end State

/-! ### Whom a crew is given -/

namespace Execution

variable {w : World A} (x : Execution w) (crew : CrewId)

/-- Whom somebody hires for a crew with the next step after `n` steps. -/
def hiredAt (n : Nat) : Option String := do
  let t ← x.turn n
  let k ← (x.state n).core t
  k.doing.hires? crew

/-- Whom a crew is given from `i` to `j`, by name. -/
def hired (i j : Nat) : List String := (List.range' i (j - i)).filterMap (x.hiredAt crew)

/-- Nobody is hired for a crew before it has been founded. -/
def HiresKnown : Prop := ∀ n, (x.hiredAt crew n).isSome → crew < (x.state n).crews.length

variable {x crew} {i j k l m n : Nat}

theorem turnover (hx : x.IsProper) (crew : CrewId) (n : Nat) :
    (x.state n).Turnover crew (x.state (n + 1)) (x.hiredAt crew n) := by
  rcases hx.cases n with ⟨t, hturn, heffect⟩ | hpauses
  · have hhired : x.hiredAt crew n = ((x.state n).core t).bind fun k => k.doing.hires? crew := by
      rw [hiredAt, hturn]
      rfl
    rw [hhired]
    exact heffect.turnover crew
  · exact hpauses.turnover crew _

/-- **A crew knows at any time who works for it.** -/
theorem staffed (hx : x.IsProper) (hknown : x.HiresKnown crew) (n : Nat) :
    (x.state n).Staffed crew := by
  induction n with
  | zero =>
    obtain ⟨buses, memory, hstart⟩ := x.start
    rw [hstart]
    exact State.start_staffed buses memory
  | succ n ih => exact ih.turnover (turnover hx crew n) (hknown n)

theorem hired_succ (hij : i ≤ j) :
    x.hired crew i (j + 1) = x.hired crew i j ++ (x.hiredAt crew j).toList := by
  rw [hired, filterMap_steps_trans hij (Nat.le_succ j), filterMap_steps_succ]
  rfl

theorem hired_self : x.hired crew i i = [] := by rw [hired, Nat.sub_self]; rfl

/-- Whoever is hired later is among those who are hired. -/
theorem hired_sublist (hij : i ≤ j) (hjk : j ≤ k) :
    (x.hired crew j k).Sublist (x.hired crew i k) := by
  induction hjk with
  | refl =>
    rw [hired_self]
    exact List.nil_sublist _
  | @step k hjk ih =>
    rw [hired_succ hjk, hired_succ (Nat.le_trans hij hjk)]
    exact ih.append (List.Sublist.refl _)

/-- **Nobody works for a crew but those who did, and those who have been hired since.** -/
theorem staff_sublist (hx : x.IsProper) (crew : CrewId) (hij : i ≤ j) :
    (((x.state j).staff crew).map Prod.snd).Sublist
      (((x.state i).staff crew).map Prod.snd ++ x.hired crew i j) := by
  induction hij with
  | refl => exact List.sublist_append_left _ _
  | step hij ih =>
    rw [hired_succ hij, ← List.append_assoc]
    exact (turnover hx crew _).staff_sublist.trans (ih.append (List.Sublist.refl _))

/-- If a crew has been emptied since its wait began, nobody worked for it at some moment of that time. -/
theorem rested (hx : x.IsProper) (hknown : x.HiresKnown crew) (hmn : m < n)
    (hbegun : ∀ c, (x.state (m + 1)).crews[crew]? = some c → c.emptied = false) {c : CrewState}
    (hc : (x.state n).crews[crew]? = some c) (hemptied : c.emptied = true) :
    ∃ k, m < k ∧ k ≤ n ∧ (x.state k).staff crew = [] := by
  induction hmn generalizing c with
  | refl =>
    rw [hbegun c hc] at hemptied
    cases hemptied
  | @step n hmn ih =>
    -- It has been emptied with this step, or was so before.
    have hbefore : ∀ c, (x.state n).crews[crew]? = some c → c.emptied = true →
        ∃ k, m < k ∧ k ≤ n + 1 ∧ (x.state k).staff crew = [] := by
      intro c hc hemptied
      obtain ⟨k, hk, hkn, hstaff⟩ := ih hc hemptied
      exact ⟨k, hk, Nat.le_succ_of_le hkn, hstaff⟩
    cases turnover hx crew n with
    | same hcrews _ => exact hbefore c (hcrews ▸ hc) hemptied
    | founds _ hsome _ =>
      obtain rfl := Option.some.inj (hsome.symm.trans hc)
      cases hemptied
    | closes hcrews _ =>
      rw [hcrews] at hc
      obtain ⟨c₀, -, rfl⟩ := Option.map_eq_some_iff.1 hc
      cases hemptied
    | hires _ _ hcrews _ =>
      rw [hcrews] at hc
      obtain ⟨c₀, hc₀, rfl⟩ := Option.map_eq_some_iff.1 hc
      exact hbefore c₀ hc₀ hemptied
    | leaves _ _ hcrews hstaff hstaff' =>
      rw [hcrews] at hc
      obtain ⟨c₀, hc₀, rfl⟩ := Option.map_eq_some_iff.1 hc
      have hfits := (staffed hx hknown n).fits c₀ hc₀
      rw [hstaff] at hfits
      rcases hfits.emptied_dismiss hemptied with hemptied₀ | hnobody
      · exact hbefore c₀ hc₀ hemptied₀
      · exact ⟨n + 1, Nat.lt_succ_of_lt hmn, Nat.le_refl _, hstaff'.trans hnobody⟩

/-- If a crew is done, nobody worked for it at some moment since its wait began. -/
theorem rested_of_isDone (hx : x.IsProper) (hknown : x.HiresKnown crew) (hmn : m < n)
    (hbegun : ∀ c, (x.state (m + 1)).crews[crew]? = some c → c.emptied = false)
    (hdone : (((x.state n).crews[crew]?).map CrewState.isDone).getD true = true) :
    ∃ k, m < k ∧ k ≤ n ∧ (x.state k).staff crew = [] := by
  have hstaffed := staffed hx hknown n
  cases hc : (x.state n).crews[crew]? with
  | none => exact ⟨n, hmn, Nat.le_refl n, hstaffed.nobody hc⟩
  | some c =>
    rw [hc, Option.map_some, Option.getD_some, CrewState.isDone] at hdone
    rcases Bool.or_eq_true_iff.1 hdone with hcounted | hemptied
    · have hzero : c.tracked = 0 := beq_iff_eq.1 (Bool.and_eq_true_iff.1 hcounted).2
      rw [(hstaffed.fits c hc).tracked] at hzero
      exact ⟨n, hmn, Nat.le_refl n, List.eq_nil_of_length_eq_zero hzero⟩
    · exact rested hx hknown hmn hbegun hc hemptied

/-- **Whoever is hired joins**, though the crew may have been closed. -/
theorem hired_joins {name : String} (h : x.hiredAt crew n = some name) : ∃ number,
    (x.state (n + 1)).staff crew = (x.state n).staff crew ++ [(number, name)] := by
  obtain ⟨t, hturn, h⟩ := Option.bind_eq_some_iff.1 h
  obtain ⟨k, hk, hhires⟩ := Option.bind_eq_some_iff.1 h
  obtain ⟨c, hc, rfl⟩ := Option.map_eq_some_iff.1 hk
  unfold Doing.hires? at hhires
  split at hhires
  case h_2 => cases hhires
  next crew' name' job next hdoing =>
    split at hhires
    case isFalse => cases hhires
    next heq =>
      subst heq
      obtain rfl := Option.some.inj hhires
      have hcore : (x.state n).core t = some ⟨.running (.perform (.hire crew' name' job) next),
          c.core.calls, c.core.passes⟩ := by rw [hk, ← hdoing]
      have hlive : c.status.isOver = false := by
        refine Bool.eq_false_iff.2 fun hover => ?_
        rw [Task.core, Status.isOver_iff.1 hover] at hdoing
        cases hdoing
      rw [operates_of_turn hturn hcore, State.staff, State.staff, State.hire_posts hc hlive, staffOf_append]
      exact ⟨_, congrArg _ (by simp [staffOf]; rfl)⟩

/-! ### Waiting for a crew -/

variable {t : TaskId} {calls : Calls A} {passes : List Pass} {tr : List (Exchange A)} {grace : Duration}
  {emptied : Bool}

/-- To wait for a crew is to close it. -/
theorem awaitCrew_step {next : Bool → Program A Outcome} (hturn : x.turn m = some t)
    (hk : (x.state m).core t = some ⟨.running (.perform (.awaitCrew crew grace) next), calls, passes⟩) :
    (x.state (m + 1)).core t
      = some ⟨.waiting (.crew crew ((x.state m).now + grace.ceilMillis) next), calls, passes⟩ ∧
    (x.state (m + 1)).crews[crew]?
      = ((x.state m).crews[crew]?).map fun c => { c with closed := true, emptied := false } := by
  rw [operates_of_turn hturn hk]
  exact ⟨State.core_setStatus (s := (x.state m).onCrew crew _) hk _, List.getElem?_modify_eq _ _ _⟩

/-- A wait for a crew begins with closing it. -/
theorem Answers.closes (h : x.Answers t calls ⟨.awaitCrew crew grace, emptied⟩ m n) :
    m < n ∧ x.turn m = some t ∧ (x.state m).IsAboutTo t (.awaitCrew crew grace) ∧
      ∀ c, (x.state (m + 1)).crews[crew]? = some c → c.closed = true ∧ c.emptied = false := by
  obtain ⟨next, hawaits, passes, hafter⟩ := h.asks
  obtain ⟨passes', hbefore⟩ := hawaits.before
  obtain ⟨hwaits, hcrews⟩ := awaitCrew_step hawaits.turn hbefore
  refine ⟨Nat.lt_of_le_of_ne h.le fun heq => ?_, hawaits.turn, ⟨next, calls, passes', hbefore⟩,
    fun c hc => ?_⟩
  · -- The task does not go on at once.
    subst heq
    cases hwaits.symm.trans hafter
  · rw [hcrews] at hc
    obtain ⟨c₀, -, rfl⟩ := Option.map_eq_some_iff.1 hc
    exact ⟨rfl, rfl⟩

/-- If a crew is told to be empty, nobody worked for it at some moment of the wait. -/
theorem Answers.rested (hx : x.IsProper) (hknown : x.HiresKnown crew)
    (h : x.Answers t calls ⟨.awaitCrew crew grace, true⟩ m n) :
    ∃ k, m < k ∧ k ≤ n ∧ (x.state k).staff crew = [] := by
  obtain ⟨hmn, -, -, hbegun⟩ := h.closes
  have hdone : true = (((x.state n).crews[crew]?).map CrewState.isDone).getD true := h.tells
  exact rested_of_isDone hx hknown hmn (fun c hc => (hbegun c hc).2) hdone.symm

/-- A crew tells a task the names of those who work for it. -/
theorem Answers.told (hx : x.IsProper) (hknown : x.HiresKnown crew) {names : List String}
    (h : x.Answers t calls ⟨.crewNames crew, names⟩ m n) :
    names.Perm (((x.state n).staff crew).map Prod.snd) := by
  have htells : names = (x.state n).workers crew := h.tells
  rw [htells]
  exact (staffed hx hknown n).workers_perm

/-- **Whoever works for a crew after a wait for it has been named, or was hired since the wait began.** -/
theorem dissolved (hx : x.IsProper) (hknown : x.HiresKnown crew) {stuck : List String}
    (hrun : (Crew.dissolve crew grace).Run tr stuck) (hthrough : x.Through t calls tr i j) :
    ∃ m, i ≤ m ∧ m < j ∧ x.turn m = some t ∧ (x.state m).IsAboutTo t (.awaitCrew crew grace) ∧
      ∀ l, j ≤ l → (((x.state l).staff crew).map Prod.snd).Subperm (stuck ++ x.hired crew m l) := by
  obtain ⟨emptied, tr, rfl, hwaited⟩ := Program.run_ask_bind_iff.1 hrun
  cases hthrough with
  | @cons _ _ _ m n _ him hanswers hrest =>
    obtain ⟨hmn, hturn, habout, -⟩ := hanswers.closes
    have hnj := hrest.le
    refine ⟨m, him, by omega, hturn, habout, fun l hl => ?_⟩
    cases emptied with
    | true =>
      -- Since some moment of the wait, whoever works for the crew was hired.
      obtain ⟨rfl, rfl⟩ := Program.run_pure_iff.1 hwaited
      obtain ⟨k, hmk, hkn, hstaff⟩ := hanswers.rested hx hknown
      have hsublist := staff_sublist hx crew (i := k) (j := l) (by omega)
      rw [hstaff] at hsublist
      exact (hsublist.trans (hired_sublist (Nat.le_of_lt hmk) (by omega))).subperm
    | false =>
      -- Since the names were told, whoever is not among them was hired.
      obtain ⟨names, tr, rfl, hrecord⟩ := Program.run_ask_bind_iff.1 hwaited
      obtain ⟨⟨⟩, tr, rfl, hend⟩ := Program.run_ask_bind_iff.1 hrecord
      obtain ⟨-, rfl⟩ := Program.run_pure_iff.1 hend
      cases hrest with
      | @cons _ _ _ m' n' _ hm' hnames hlast =>
        have hle := hnames.le
        have hle' := hlast.le
        have hsublist := staff_sublist hx crew (i := n') (j := l) (by omega)
        have hlater : (x.hired crew n' l).Sublist (x.hired crew m l) :=
          hired_sublist (by omega) (by omega)
        refine (hsublist.trans ((List.Sublist.refl _).append hlater)).subperm.trans ?_
        exact ((hnames.told hx hknown).symm.append_right _).subperm

end Execution

end Orchestra.Machine

namespace Orchestra

open Machine

variable {A : Application} {w : World A}

/-! ### The main result -/

/-- **After a shutdown, those work for the crew whom the shutdown has named and those who have been hired
since its wait began**, and the names that the crew tells are theirs.  So nobody works for it after a
shutdown that has named nobody, as long as nobody is hired; but whoever is hired joins, though the crew has
been closed. -/
theorem shutdown_leaves_workers (x : Execution w) (hx : x.IsProper) (cast : Cast) (name : String)
    (e : Ensemble) (hknown : x.HiresKnown e.crew) (next : ShutdownSummary × Ensemble → Program A Outcome)
    (t : TaskId) (calls : Calls A) (passes : List Pass) (i j : Nat) (hij : i ≤ j)
    (huncut : x.Uncut t calls.length i j)
    (hk : (x.state i).core t
      = some ⟨.running (e.shutdown cast name >>= next), calls, passes⟩) :
    -- The shutdown is still going on,
    (∀ m, i ≤ m → m ≤ j → x.Amid t calls (e.shutdown cast name) next i m) ∨
    -- or it has ended with its report, and with step `m` it has closed the crew.
    ∃ n tr r, n ≤ j ∧ x.Returns t calls (e.shutdown cast name) next i n tr r ∧
      ∃ m, i ≤ m ∧ m < n ∧ x.turn m = some t ∧
        (x.state m).IsAboutTo t (.awaitCrew e.crew e.config.grace) ∧
        ∀ l, n ≤ l →
          ((x.state l).workers e.crew).Perm (((x.state l).staff e.crew).map Prod.snd) ∧
          ((x.state l).workers e.crew).Subperm (r.1.stuckWorkers ++ x.hired e.crew m l) ∧
          (r.1.stuckWorkers = [] → x.hired e.crew m l = [] → (x.state l).staff e.crew = []) ∧
          ∀ worker, x.hiredAt e.crew l = some worker → ∃ number,
            (x.state (l + 1)).staff e.crew = (x.state l).staff e.crew ++ [(number, worker)] := by
  rcases Execution.followed huncut hij hk with hamid | ⟨n, tr, r, hn, hreturns⟩
  · exact .inl hamid
  refine .inr ⟨n, tr, r, hn, hreturns, ?_⟩
  -- The wait for the crew has its place among the exchanges of the shutdown.
  obtain ⟨hooks, c, announced, _, rfl, -, -, -, hdismiss⟩ := Ensemble.shutdown_parts hreturns.run
  obtain ⟨waited, stuck, first, rest, last, rfl, hwaited, -, -, rfl⟩ := Ensemble.dismiss_parts hdismiss
  obtain ⟨n₁, hhooks, hthrough⟩ := hreturns.through.append_inv
  obtain ⟨n₂, hannounced, hthrough⟩ := hthrough.append_inv
  cases hthrough with
  | @cons _ _ _ m₃ n₃ _ hm₃ hcancel hthrough =>
    obtain ⟨n₄, hthrough, hrest⟩ := hthrough.append_inv
    obtain ⟨m, hm, hmn, hturn, habout, hworkers⟩ := Execution.dissolved hx hknown hwaited hthrough
    have := hhooks.le
    have := hannounced.le
    have := hcancel.le
    have := hrest.le
    refine ⟨m, by omega, by omega, hturn, habout, fun l hl => ?_⟩
    have htold := (Execution.staffed hx hknown l).workers_perm
    have hsubperm := hworkers l (by omega)
    refine ⟨htold, htold.subperm.trans hsubperm, fun hstuck hnobody => ?_, fun _ => Execution.hired_joins⟩
    have hstuck : stuck = [] := hstuck
    rw [hstuck, hnobody] at hsubperm
    exact List.map_eq_nil_iff.1 (List.subperm_nil.1 hsubperm)

/-- A world in which whoever has a job waits for ever. -/
def World.patient : World .bare := ⟨.sample, fun _ => .done (.ok ()), fun _ => .perform .hang nofun⟩

/-- A module starts a worker, and the main task waits for ever. -/
def Program.afterwards (_ : ShutdownSummary × Ensemble) : Program .bare Outcome := do
  Kit.startWorker ⟨0, "gateway", .gateway, ⟨4⟩, 0, 0, 0⟩ "beat" ()
  .perform .hang nofun

/-- An ensemble is shut down before anybody has been hired, and a module starts a worker afterwards. -/
def Program.lateWorker : Program .bare Outcome := do
  let _ ← .ask (.newToken none)
  let _ ← .ask .newCrew
  Ensemble.sample.shutdown .sample "sample" >>= Program.afterwards

/-- The main task takes its steps, and the worker takes one. -/
def Machine.Execution.lateWorker : Execution World.patient :=
  .directed World.patient 1 Program.lateWorker () (List.replicate 24 (.step 0) ++ [.step 1])

theorem Machine.Execution.lateWorker_hiresKnown : Execution.lateWorker.HiresKnown 0 := by
  have hmoves : ∀ n, n < 26 → (Execution.lateWorker.hiredAt 0 n).isSome →
      0 < (Execution.lateWorker.state n).crews.length := by decide
  intro n hhired
  refine hmoves n (Nat.lt_of_not_le fun hn => ?_) hhired
  have hturn : Execution.lateWorker.turn n = none := Execution.directed_turn hn
  rw [Execution.hiredAt, hturn] at hhired
  cases hhired

/-- The shutdown comes to its end, and accounts for the worker as one that was hired afterwards. -/
theorem shutdown_leaves_workers_late :
    ∃ n tr r m, n ≤ 24 ∧ Execution.lateWorker.Returns 0 [] (Ensemble.sample.shutdown .sample "sample")
        Program.afterwards 3 n tr r ∧ m < n ∧
      ∀ l, n ≤ l → ((Execution.lateWorker.state l).workers 0).Subperm
        (r.1.stuckWorkers ++ Execution.lateWorker.hired 0 m l) := by
  rcases shutdown_leaves_workers Execution.lateWorker Execution.directed_isProper .sample "sample"
      Ensemble.sample Execution.lateWorker_hiresKnown Program.afterwards 0 [] [] 3 24 (by decide)
      (Execution.uncut_of_isWithin (by decide)) rfl with
    hamid | ⟨n, tr, r, hn, hreturns, m, -, hmn, -, -, hworkers⟩
  · -- A shutdown asks for nothing that cannot be answered.
    obtain ⟨op, ⟨answer⟩, hserves⟩ :=
      (hamid 24 (by decide) (Nat.le_refl _)).serves Ensemble.only_shutdown rfl rfl
    cases hserves
    exact answer.elim
  · exact ⟨n, tr, r, m, hn, hreturns, hmn, fun l hl => (hworkers l hl).2.1⟩

/-- **A worker that is hired after a shutdown runs**, though the shutdown has named nobody and the crew has
been closed; and nothing ends it. -/
theorem worker_after_shutdown :
    (Execution.lateWorker.state 3).core 0 = some ⟨.running
      (Ensemble.sample.shutdown .sample "sample" >>= Program.afterwards), [], []⟩ ∧
    (Execution.lateWorker.state 22).core 0
      = some ⟨.running (Program.afterwards (⟨[], []⟩, Ensemble.sample)), [], []⟩ ∧
    (Execution.lateWorker.state 22).workers 0 = [] ∧
    ∀ n, 26 ≤ n → (Execution.lateWorker.state n).workers 0 = ["gateway/beat"] ∧
      (Execution.lateWorker.state n).staff 0 = [(0, "gateway/beat")] ∧
      ((Execution.lateWorker.state n).crews[0]?).map CrewState.closed = some true := by
  refine ⟨rfl, rfl, rfl, fun n hn => ?_⟩
  have hrest : Execution.lateWorker.state n = Execution.lateWorker.state 26 :=
    Execution.directed_rest rfl hn
  rw [hrest]
  exact ⟨rfl, rfl, rfl⟩

end Orchestra
