import Mathlib.Data.ENat.Lattice
import Orchestra.Proofs.Attendance
import Orchestra.Proofs.Cancelling
import Orchestra.Proofs.Clock
import Orchestra.Proofs.Recursion
import Orchestra.Proofs.Timing

/-!
# When workers leave

If nobody is hired any more a crew only gets smaller, and each worker leaves it at one moment, or never.

* `Execution.Reaches` — a task comes to a certain moment of the execution; `Reaches.step`, `Reaches.andThen`;
* `Execution.staff_shrinks` — nobody comes to work for a crew for which nobody is hired;
* `Execution.LeavesAt` — when a worker leaves; `exists_leavesAt`, `LeavesAt.unique` — each does so at one moment;
* `LeavesAt.mem_of_lt`, `LeavesAt.le_of_mem` — a worker is on the list before that moment, and not after it;
* `lastEnd` — the moment at which the last of some workers leaves;
* `Program.Heeds` — a worker that ends as soon as its token is cancelled;
* `Execution.leavesAt_of_heeds` — it leaves at the moment at which that happens.
-/

namespace Orchestra

open Machine

variable {A : Application} {w : World A}

namespace Machine

/-! ### Coming to a moment -/

namespace Execution

variable {x : Execution w} {t : TaskId} {live : Prop} {d i j l m n : Nat} {k k' : Core A} {I Q R : Nat → Prop}
  {calls : Calls A} {passes : List Pass}

/-- Task `t`, inside of `d` calls after `i` steps, comes to a moment of which `Q` holds.  As long as it is not cut
off from the calls, `I` holds or it has come there; and it comes there if nothing keeps it from going on. -/
structure Reaches (x : Execution w) (t : TaskId) (live : Prop) (d i : Nat) (I Q : Nat → Prop) : Prop where
  followed : ∀ j, i ≤ j → x.Uncut t d i j → I j ∨ ∃ n, i ≤ n ∧ n ≤ j ∧ Q n
  comes : live → (∀ j, x.Uncut t d i j) → ∃ n, i ≤ n ∧ Q n

namespace Reaches

theorem here (hQ : Q i) : x.Reaches t live d i I Q where
  followed _ hj _ := .inr ⟨i, Nat.le_refl i, hj, hQ⟩
  comes _ _ := ⟨i, Nat.le_refl i, hQ⟩

theorem mono (h : x.Reaches t live d i I Q) (hQ : ∀ n, Q n → R n) : x.Reaches t live d i I R where
  followed j hj huncut := by
    rcases h.followed j hj huncut with hway | ⟨n, hi, hn, hthere⟩
    · exact .inl hway
    · exact .inr ⟨n, hi, hn, hQ n hthere⟩
  comes hlive huncut := by
    obtain ⟨n, hi, hthere⟩ := h.comes hlive huncut
    exact ⟨n, hi, hQ n hthere⟩

/-- One way after another. -/
theorem andThen (h : x.Reaches t live d i I Q) (hnext : ∀ n, i ≤ n → Q n → x.Reaches t live d n I R) :
    x.Reaches t live d i I R where
  followed j hj huncut := by
    rcases h.followed j hj huncut with hway | ⟨n, hi, hn, hthere⟩
    · exact .inl hway
    · rcases (hnext n hi hthere).followed j hn (huncut.tail hi) with hway | ⟨n', hn', hj', hthere'⟩
      · exact .inl hway
      · exact .inr ⟨n', Nat.le_trans hi hn', hj', hthere'⟩
  comes hlive huncut := by
    obtain ⟨n, hi, hthere⟩ := h.comes hlive huncut
    obtain ⟨n', hn', hthere'⟩ := (hnext n hi hthere).comes hlive fun j => (huncut j).tail hi
    exact ⟨n', Nat.le_trans hi hn', hthere'⟩

/-- The next step of a task that gets its turn. -/
theorem step (hk : (x.state i).core t = some k) (hI : ∀ j, i ≤ j → x.Rests t k i j → I j)
    (hturn : live → (∀ j, x.Uncut t d i j) → ∃ m, i ≤ m ∧ x.turn m = some t) :
    x.Reaches t live d i I fun n => ∃ m k', n = m + 1 ∧ x.Acts t d k i m k' where
  followed j hj huncut := by
    rcases first_turn huncut hj hk with hrests | ⟨m, k', hm, hacts⟩
    · exact .inl (hI j hj hrests)
    · exact .inr ⟨m + 1, Nat.le_succ_of_le hacts.le, hm, m, k', rfl, hacts⟩
  comes hlive huncut := by
    obtain ⟨m, him, hturn⟩ := hturn hlive huncut
    obtain ⟨n, k', hacts⟩ := acts_of_turn (huncut (m + 1)) him hk hturn
    exact ⟨n + 1, Nat.le_succ_of_le hacts.le, n, k', rfl, hacts⟩

/-- The next step of a task that goes on. -/
theorem goOn {p : Program A Outcome} (hlive : live → x.Attends t)
    (hk : (x.state i).core t = some ⟨.running p, calls, passes⟩)
    (hI : ∀ j, i ≤ j → x.Rests t ⟨.running p, calls, passes⟩ i j → I j) :
    x.Reaches t live d i I fun n => ∃ m k', n = m + 1 ∧ x.Acts t d ⟨.running p, calls, passes⟩ i m k' :=
  step hk hI fun h _ => (hlive h).served i (State.ready_of_running hk)

end Reaches

theorem Acts.outermost (h : x.Acts t 0 k i n k') : ([] : Calls A).length ≤ k'.calls.length := h.depth

/-- The outermost program of a task has nothing left to do when it has come to its end. -/
theorem not_acts_outermost {p : Program A Outcome} {o : Outcome} (hends : p.EndsWith o) :
    ¬ x.Acts t 0 ⟨.running p, [], passes⟩ i n k' := by
  intro hacts
  have htimed := timed_of_turn hacts.turn hacts.before hacts.after
  generalize (x.state n).limits t = ls, (x.state (n + 1)).limits t = ls' at htimed
  generalize hcore : Core.mk (.running p) [] passes = c at htimed
  cases htimed with
  | stays _ hstays =>
    subst hcore
    obtain ⟨op, next, rfl, hop⟩ := hstays p rfl
    cases hends
    exact hop
  | enters =>
    cases hcore
    cases hends
  | finishes hended => exact hacts.goesOn hended
  | expires =>
    have hcalls := congrArg (fun c : Core A => c.calls.length) hcore
    simp at hcalls
  | _ => cases hcore

end Execution

/-! ### A crew for which nobody is hired -/

/-- Without a newcomer a crew gets no larger. -/
theorem State.Turnover.sublist {crew : CrewId} {s s' : State A} (h : s.Turnover crew s' none) :
    (s'.staff crew).Sublist (s.staff crew) := by
  cases h with
  | same _ hstaff => exact hstaff ▸ .refl _
  | founds _ _ hstaff => exact hstaff ▸ .refl _
  | closes _ hstaff => exact hstaff ▸ .refl _
  | hires _ hnew => cases hnew
  | leaves _ _ _ hstaff hstaff' =>
    rw [hstaff, hstaff']
    exact (List.sublist_cons_self _ _).append_left _

namespace Execution

variable {x : Execution w} {t u : TaskId} {crew : CrewId} {i j l m n : Nat} {worker : Nat × String} {T T' : ℕ∞}

/-- From `i` on nobody is hired for a crew. -/
def HiresNobody (x : Execution w) (crew : CrewId) (i : Nat) : Prop := ∀ n, i ≤ n → x.hiredAt crew n = none

/-- **Nobody comes to work for a crew** for which nobody is hired. -/
theorem staff_shrinks (hx : x.IsProper) (hnobody : x.HiresNobody crew i) (him : i ≤ m) (hmn : m ≤ n) :
    ((x.state n).staff crew).Sublist ((x.state m).staff crew) := by
  induction hmn with
  | refl => exact .refl _
  | @step n hmn ih =>
    have hturnover := turnover hx crew n
    rw [hnobody n (Nat.le_trans him hmn)] at hturnover
    exact hturnover.sublist.trans ih

/-- When a worker that is on a crew's list after `i` steps leaves it: at the moment of the step with which it is
off the list, or never. -/
inductive LeavesAt (x : Execution w) (crew : CrewId) (i : Nat) (worker : Nat × String) : ℕ∞ → Prop where
  | never : (∀ n, i ≤ n → worker ∈ (x.state n).staff crew) → LeavesAt x crew i worker ⊤
  | leaves {n : Nat} : i ≤ n → worker ∈ (x.state n).staff crew → worker ∉ (x.state (n + 1)).staff crew →
      LeavesAt x crew i worker (x.state (n + 1)).now

/-- Whoever is on the list leaves it some time, or never. -/
theorem exists_leavesAt (h : worker ∈ (x.state i).staff crew) : ∃ T, x.LeavesAt crew i worker T := by
  by_cases hstays : ∀ n, i ≤ n → worker ∈ (x.state n).staff crew
  · exact ⟨⊤, .never hstays⟩
  · -- The first moment at which the worker is off the list is preceded by one at which it is on it.
    obtain ⟨n, hn⟩ := not_forall.1 hstays
    obtain ⟨hin, hgone⟩ := Classical.not_imp.1 hn
    clear hn hstays
    induction hin with
    | refl => exact absurd h hgone
    | @step n hin ih =>
      by_cases hmem : worker ∈ (x.state n).staff crew
      · exact ⟨_, .leaves hin hmem hgone⟩
      · exact ih hmem

namespace LeavesAt

variable (hx : x.IsProper) (hnobody : x.HiresNobody crew i)
include hx hnobody

/-- A worker leaves once. -/
theorem unique (h : x.LeavesAt crew i worker T) (h' : x.LeavesAt crew i worker T') : T = T' := by
  have hlater : ∀ {m n}, i ≤ m → worker ∉ (x.state (m + 1)).staff crew → worker ∈ (x.state n).staff crew →
      n ≤ m := fun {m n} him hgone hmem => Nat.le_of_not_lt fun hlt =>
    hgone ((staff_shrinks hx hnobody (Nat.le_succ_of_le him) hlt).subset hmem)
  cases h with
  | never hstays =>
    cases h' with
    | never => rfl
    | @leaves n hin _ hgone => exact absurd (hstays (n + 1) (Nat.le_succ_of_le hin)) hgone
  | @leaves m him hmem hgone =>
    cases h' with
    | never hstays => exact absurd (hstays (m + 1) (Nat.le_succ_of_le him)) hgone
    | @leaves n hin hmem' hgone' =>
      obtain rfl := Nat.le_antisymm (hlater hin hgone' hmem) (hlater him hgone hmem')
      rfl

variable (htime : x.KeepsTime t)
include htime

/-- **A worker is on the list before it leaves**, -/
theorem mem_of_lt (h : x.LeavesAt crew i worker T) (hin : i ≤ n) (hnow : ((x.state n).now : ℕ∞) < T) :
    worker ∈ (x.state n).staff crew := by
  cases h with
  | never hstays => exact hstays n hin
  | @leaves m him hmem _ =>
    have hnm : n ≤ m := Nat.le_of_lt_succ (Nat.lt_of_not_le fun hle =>
      Nat.not_lt_of_le (htime.le hle) (Nat.cast_lt.1 hnow))
    exact (staff_shrinks hx hnobody hin hnm).subset hmem

/-- and not after that moment. -/
theorem le_of_mem (h : x.LeavesAt crew i worker T) (hmem : worker ∈ (x.state n).staff crew) :
    ((x.state n).now : ℕ∞) ≤ T := by
  cases h with
  | never => exact le_top
  | @leaves m him _ hgone =>
    have hnm : n ≤ m := Nat.le_of_not_lt fun hlt =>
      hgone ((staff_shrinks hx hnobody (Nat.le_succ_of_le him) hlt).subset hmem)
    exact Nat.cast_le.2 (htime.le (Nat.le_succ_of_le hnm))

end LeavesAt

end Execution

/-- When the last of some workers leaves, or the given moment if that is later. -/
noncomputable def lastEnd (ends : Nat × String → ℕ∞) (now : Nat) (staff : List (Nat × String)) : ℕ∞ :=
  staff.foldr (fun worker T => max (ends worker) T) now

theorem lastEnd_le_iff {ends : Nat × String → ℕ∞} {now : Nat} {staff : List (Nat × String)} {T : ℕ∞} :
    lastEnd ends now staff ≤ T ↔ (now : ℕ∞) ≤ T ∧ ∀ worker ∈ staff, ends worker ≤ T := by
  induction staff with
  | nil => simp [lastEnd]
  | cons worker rest ih =>
    rw [lastEnd, List.foldr_cons, max_le_iff, ← lastEnd, ih, List.forall_mem_cons]
    tauto

end Machine

/-! ### Workers that heed their token -/

/-- What is left of the work of a worker that ends as soon as a token is cancelled: it waits for nothing else. -/
inductive Program.Heeds (token : TokenId) : Program A Outcome → Prop where
  | ends {p : Program A Outcome} {o : Outcome} : p.EndsWith o → Heeds token p
  | awaits {next : Unit → Program A Outcome} : Heeds token (next ()) →
      Heeds token (.perform (.awaitCancel token) next)
  | aside {op : Op A} {next : op.Answer → Program A Outcome} : op.IsInstant → (∀ a, Heeds token (next a)) →
      Heeds token (.perform op next)

namespace Machine

/-- A worker goes on with such work, or waits for the token. -/
inductive Doing.Heeds (token : TokenId) : Doing A → Prop where
  | goesOn {p : Program A Outcome} : p.Heeds token → Heeds token (.running p)
  | waits {p : Program A Outcome} : p.Heeds token → Heeds token (.waiting (.cancelled token p))

/-- Whoever waits for a token that has been cancelled can take a step. -/
theorem State.ready_of_cancelled {s : State A} {t : TaskId} {token : TokenId} {next : Program A Outcome}
    {calls : Calls A} {passes : List Pass}
    (h : s.core t = some ⟨.waiting (.cancelled token next), calls, passes⟩) (hcancelled : s.isCancelled token = true) :
    (s.advance w t).isSome := by
  refine ready_of_proceed h fun wait hbare => ?_
  cases wait <;> cases hbare
  rw [proceed, if_pos hcancelled]
  rfl

namespace Execution

variable {x : Execution w} {t u : TaskId} {crew : CrewId} {root token : TokenId} {d i j l m n : Nat} {k' : Core A}
  {calls : Calls A} {passes : List Pass} {worker : Nat × String}

/-- Whoever waits for a token goes on when it takes a step. -/
theorem resumed_of_acts {next : Program A Outcome}
    (h : x.Acts t calls.length ⟨.waiting (.cancelled token next), calls, passes⟩ i n k') :
    k' = ⟨.running next, calls, passes⟩ := by
  obtain ⟨wait, hbare, hproceed⟩ := h.proceeds
  cases wait <;> cases hbare
  rw [State.proceed] at hproceed
  split at hproceed
  · exact h.becomes (x.state n) (.running next) (by rw [← Option.some.inj hproceed]; rfl) rfl
  · cases hproceed

/-- The work of a task is such that it ends as soon as a token is cancelled. -/
def HeedsAt (x : Execution w) (t : TaskId) (token : TokenId) (n : Nat) : Prop :=
  ∃ doing passes, (x.state n).core t = some ⟨doing, [], passes⟩ ∧ doing.Heeds token

/-- Once its token has been cancelled, such a task comes to its end: there is nothing else to which it comes. -/
def Perishes (x : Execution w) (t : TaskId) (token : TokenId) (i : Nat) : Prop :=
  x.Reaches t (x.Attends t ∧ ∃ l, (x.state l).isCancelled token = true) 0 i (x.HeedsAt t token) fun _ => False

/-- Such a task that waits for its token is on its way to its end if it is so once it goes on. -/
theorem perishes_of_waiting (hx : x.IsProper) {next : Program A Outcome} (hheeds : next.Heeds token)
    (hk : (x.state i).core t = some ⟨.waiting (.cancelled token next), [], passes⟩)
    (hnext : ∀ n, (x.state n).core t = some ⟨.running next, [], passes⟩ → x.Perishes t token n) :
    x.Perishes t token i := by
  refine (Reaches.step hk (fun j hj hrests => ⟨_, _, hrests.last hj, .waits hheeds⟩) ?_).andThen ?_
  · rintro ⟨hattends, l, hcancelled⟩ huncut
    rcases first_turn (huncut (max i l)) (Nat.le_max_left i l) hk with hrests | ⟨m, k', -, hacts⟩
    · obtain ⟨m, hm, hturn⟩ := hattends.served _ (State.ready_of_cancelled (hrests.last (Nat.le_max_left i l))
        (hx.isCancelled_mono (Nat.le_max_right i l) hcancelled))
      exact ⟨m, Nat.le_trans (Nat.le_max_left i l) hm, hturn⟩
    · exact ⟨m, hacts.le, hacts.turn⟩
  · rintro _ - ⟨m, k', rfl, hacts⟩
    have houtermost : x.Acts t ([] : Calls A).length _ i m k' := hacts
    obtain rfl := resumed_of_acts houtermost
    exact hnext _ hacts.after

/-- Whoever heeds a token is on its way to its end. -/
theorem perishes_of_running (hx : x.IsProper) {p : Program A Outcome} (hheeds : p.Heeds token)
    (hk : (x.state i).core t = some ⟨.running p, [], passes⟩) : x.Perishes t token i := by
  induction hheeds generalizing i passes with
  | ends hends =>
    refine (Reaches.goOn And.left hk fun j hj hrests => ⟨_, _, hrests.last hj, .goesOn (.ends hends)⟩).andThen ?_
    rintro _ - ⟨m, k', -, hacts⟩
    exact absurd hacts (not_acts_outermost hends)
  | @awaits next hheeds ih =>
    refine (Reaches.goOn And.left hk fun j hj hrests => ⟨_, _, hrests.last hj, .goesOn (.awaits hheeds)⟩).andThen ?_
    rintro _ - ⟨m, k', rfl, hacts⟩
    have hwaits : (x.state (m + 1)).core t = some ⟨.waiting (.cancelled token (next ())), [], passes⟩ := by
      rw [hacts.operates]
      exact State.core_setStatus hacts.before _
    exact perishes_of_waiting hx hheeds hwaits fun n hn => ih hn
  | @aside op next hop hheeds ih =>
    refine (Reaches.goOn And.left hk fun j hj hrests =>
      ⟨_, _, hrests.last hj, .goesOn (.aside hop hheeds)⟩).andThen ?_
    rintro _ - ⟨m, k', rfl, hacts⟩
    have houtermost : x.Acts t ([] : Calls A).length _ i m k' := hacts
    obtain ⟨answer, passes', rfl⟩ := houtermost.answered hop
    exact ih answer hacts.after

theorem HeedsAt.perishes (hx : x.IsProper) (h : x.HeedsAt t token i) : x.Perishes t token i := by
  obtain ⟨doing, passes, hk, hheeds⟩ := h
  cases hheeds with
  | goesOn hheeds => exact perishes_of_running hx hheeds hk
  | waits hheeds => exact perishes_of_waiting hx hheeds hk fun n hn => perishes_of_running hx hheeds hn

/-- Such a task can take a step once its token has been cancelled. -/
theorem HeedsAt.ready (h : x.HeedsAt t token n) (hcancelled : (x.state n).isCancelled token = true) :
    ((x.state n).advance w t).isSome := by
  obtain ⟨doing, passes, hk, hheeds⟩ := h
  cases hheeds with
  | goesOn => exact State.ready_of_running hk
  | waits => exact State.ready_of_cancelled hk hcancelled

/-! ### Posts -/

/-- Whoever is posted has not ended. -/
theorem live_of_posts (h : (x.state n).posts[t]? = some (some (crew, worker))) :
    ∃ k, (x.state n).core t = some k ∧ k.doing ≠ .ended := by
  rw [State.posts, List.getElem?_map] at h
  obtain ⟨task, htask, hpost⟩ := Option.map_eq_some_iff.1 h
  refine ⟨task.core, State.core_of_task htask, fun hended => ?_⟩
  rw [Task.post?, if_pos (Status.isOver_iff.2 hended)] at hpost
  cases hpost

/-- A worker keeps its post as long as it is on the list. -/
theorem posts_of_mem (hx : x.IsProper) (hknown : x.HiresKnown crew) (hnobody : x.HiresNobody crew i)
    (hpost : (x.state i).posts[t]? = some (some (crew, worker))) (hin : i ≤ n)
    (hmem : worker ∈ (x.state n).staff crew) : (x.state n).posts[t]? = some (some (crew, worker)) := by
  induction hin with
  | refl => exact hpost
  | @step n hin ih =>
    have hbefore := ih ((staff_shrinks hx hnobody hin (Nat.le_succ n)).subset hmem)
    exact posts_of_not_ends hx hbefore ((mem_staff_iff hx hknown hbefore).1 hmem)

/-- **Whoever heeds its token leaves at the moment at which it is cancelled**, whichever step it is with which that
happens, if the clock stands still until then. -/
theorem leavesAt_of_heeds (hx : x.IsProper) (hknown : x.HiresKnown crew) (hnobody : x.HiresNobody crew i)
    (htime : x.KeepsTime t) (hattends : x.Attends t) (hpost : (x.state i).posts[t]? = some (some (crew, worker)))
    (hheeds : x.HeedsAt t token i) (hil : i ≤ l) (hcancelled : (x.state l).isCancelled token = true)
    (hnow : (x.state l).now = (x.state i).now) : x.LeavesAt crew i worker (x.state i).now := by
  -- As long as the worker is on the list its task has not ended, and heeds the token.
  have huncut : ∀ n, (∀ m, i ≤ m → m ≤ n → worker ∈ (x.state m).staff crew) → x.Uncut t 0 i n := by
    intro n hstays m him hmn
    obtain ⟨k, hk, hlive⟩ := live_of_posts (posts_of_mem hx hknown hnobody hpost him (hstays m him hmn))
    exact ⟨k, hk, hlive, Nat.zero_le _⟩
  have hperishes := hheeds.perishes hx
  obtain ⟨T, hleaves⟩ := exists_leavesAt (mem_staff_of_posts hpost)
  cases id hleaves with
  | never hstays =>
    obtain ⟨_, -, hfalse⟩ := hperishes.comes ⟨hattends, l, hcancelled⟩ fun n => huncut n fun m him _ => hstays m him
    exact hfalse.elim
  | @leaves n hin hmem hgone =>
    have hstays : ∀ m, i ≤ m → m ≤ n → worker ∈ (x.state m).staff crew :=
      fun m him hmn => (staff_shrinks hx hnobody him hmn).subset hmem
    have hheedsAt : ∀ m, i ≤ m → m ≤ n → x.HeedsAt t token m := fun m him hmn =>
      (hperishes.followed m him (huncut m fun a ha ham => hstays a ha (Nat.le_trans ham hmn))).resolve_right
        fun ⟨_, _, _, hfalse⟩ => hfalse
    -- From the cancellation on the task can take a step, and the clock stands still.
    have hstands : ∀ m, l ≤ m → m ≤ n + 1 → (x.state m).now = (x.state i).now := by
      intro m hlm
      induction hlm with
      | refl => exact fun _ => hnow
      | @step m hlm ih =>
        intro hmn
        have hready := (hheedsAt m (Nat.le_trans hil hlm) (Nat.le_of_succ_le_succ hmn)).ready (w := w)
          (hx.isCancelled_mono hlm hcancelled)
        rw [htime.stands m hready]
        exact ih (Nat.le_of_succ_le hmn)
    have hend : (x.state (n + 1)).now = (x.state i).now := by
      rcases Nat.le_total l (n + 1) with hle | hle
      · exact hstands (n + 1) hle (Nat.le_refl _)
      · exact Nat.le_antisymm (hnow ▸ htime.le hle) (htime.le (Nat.le_succ_of_le hin))
    rwa [hend] at hleaves

end Execution

end Machine

end Orchestra
