import Orchestra.Proofs.Following

/-!
# All calls of a task

`Execution.heard` tells whom a task calls from one place among its calls.  Here it is all calls that are
looked at, wherever they are made.

* `Execution.called` — whom a task calls, in order;
* `Step.deeper` — one step gets further inside only by a call;
* `Execution.level_of_unheard` — a task that calls nobody from where it is stays there;
* `Execution.entered_since` — whoever is further inside has made a call from here.
-/

namespace Orchestra.Machine

variable {A : Application} {w : World A}

/-- A step gets further inside only by a call, and then by no more than that. -/
theorem Step.deeper {t : TaskId} {g g' : Buses} {k k' : Core A} (h : Step w t g k g' k') :
    k'.calls.length ≤ k.calls.length ∨ k'.calls.length = k.calls.length + 1 ∧
      ∃ callee limit next, k.doing = .running (.perform (.call callee limit) next) := by
  cases h with
  | enters => exact .inr ⟨rfl, _, _, _, rfl⟩
  | @leaves _ depth caller inner rest _ _ =>
    refine .inl ?_
    show rest.length ≤ (inner ++ (depth, caller) :: rest).length
    rw [List.length_append, List.length_cons]
    omega
  | finishes => exact .inl (Nat.zero_le _)
  | _ => exact .inl (Nat.le_refl _)

namespace Execution

variable (x : Execution w) (t : TaskId)

/-- Whom task `t` calls with the step after `n` steps. -/
def callBy (n : Nat) : Option Callee := ((x.state n).core t).bind fun k => x.callAt t k.calls.length n

/-- Whom task `t` calls with the steps from `i` to `j`, in order. -/
def called (i j : Nat) : List Callee := (List.range' i (j - i)).filterMap (x.callBy t)

variable {x t} {d i j m n : Nat} {k k' : Core A}

theorem callBy_of_core (hk : (x.state n).core t = some k) : x.callBy t n = x.callAt t k.calls.length n := by
  rw [callBy, hk, Option.bind_some]

theorem callBy_of_doing (hk : (x.state n).core t = some k)
    (h : ∀ callee limit next, k.doing ≠ .running (.perform (.call callee limit) next)) :
    x.callBy t n = none :=
  (callBy_of_core hk).trans (callAt_of_core hk fun callee limit next heq => absurd heq (h callee limit next))

@[simp] theorem called_self (i : Nat) : x.called t i i = [] := by
  rw [called, Nat.sub_self]
  rfl

theorem called_trans (hi : i ≤ m) (hj : m ≤ j) : x.called t i j = x.called t i m ++ x.called t m j :=
  filterMap_steps_trans hi hj

theorem called_succ (n : Nat) : x.called t n (n + 1) = (x.callBy t n).toList := filterMap_steps_succ n

theorem called_eq_nil (h : ∀ n, i ≤ n → n < j → x.callBy t n = none) : x.called t i j = [] :=
  filterMap_steps_eq_nil_iff.2 h

theorem callAt_of_heard (h : x.heard t d i j = []) (hi : i ≤ n) (hj : n < j) : x.callAt t d n = none :=
  filterMap_steps_eq_nil_iff.1 h n hi hj

/-- A task that stays as it is calls nobody. -/
theorem Rests.called (h : x.Rests t k i j) : x.called t i j = [] :=
  called_eq_nil fun n hi hj =>
    (callBy_of_core (h.core n hi (Nat.le_of_lt hj))).trans (callAt_of_heard (h.heard _) hi hj)

/-- One step, which may be a call. -/
theorem Acts.called (h : x.Acts t d k i n k') :
    x.called t i (n + 1) = (x.callAt t k.calls.length n).toList := by
  rw [called_trans h.le (Nat.le_succ n), h.rests.called, called_succ, callBy_of_core h.before]
  rfl

/-- One step that is no call. -/
theorem Acts.called_nothing (h : x.Acts t d k i n k')
    (hcall : ∀ callee limit next, k.doing ≠ .running (.perform (.call callee limit) next)) :
    x.called t i (n + 1) = [] := by
  rw [h.called, callAt_of_core h.before fun callee limit next heq => absurd heq (hcall callee limit next)]
  rfl

/-- One step with a task that is not cut off: it gets no further inside but by a call from where it is. -/
theorem level_succ (huncut : x.Uncut t d n (n + 1)) (hk : (x.state n).core t = some k)
    (hlevel : k.calls.length = d) (hcall : x.callAt t d n = none) :
    ∃ k', (x.state (n + 1)).core t = some k' ∧ k'.calls.length = d := by
  obtain ⟨c, hc, hended, -⟩ := huncut n (Nat.le_refl n) (Nat.le_succ n)
  obtain rfl := Option.some.inj (hk.symm.trans hc)
  obtain ⟨k', hk', hended', hdepth⟩ := huncut (n + 1) (Nat.le_succ n) (Nat.le_refl _)
  refine ⟨k', hk', ?_⟩
  by_cases hturn : x.turn n = some t
  · rcases (step_of_turn hturn hk hk').deeper with hle | ⟨-, callee, limit, next, hdoing⟩
    · exact Nat.le_antisymm (hlevel ▸ hle) hdepth
    · obtain ⟨doing, calls, passes⟩ := k
      obtain rfl : doing = .running (.perform (.call callee limit) next) := hdoing
      obtain rfl : calls.length = d := hlevel
      cases (callAt_of_call hturn hk).symm.trans hcall
  · rw [same_of_turn_ne hturn hk hended hk' hended', hlevel]

/-- **A task that calls nobody from where it is stays there.** -/
theorem level_of_unheard (hij : i ≤ j) (huncut : x.Uncut t d i j) (hk : (x.state i).core t = some k)
    (hlevel : k.calls.length = d) (hheard : x.heard t d i j = []) :
    ∃ k', (x.state j).core t = some k' ∧ k'.calls.length = d := by
  induction hij with
  | refl => exact ⟨k, hk, hlevel⟩
  | @step j hij ih =>
    have hnobody : ∀ n, i ≤ n → n < j + 1 → x.callAt t d n = none := fun n hi hj => callAt_of_heard hheard hi hj
    have hbefore : x.heard t d i j = [] := heard_eq_nil fun n hi hj => hnobody n hi (Nat.lt_succ_of_lt hj)
    obtain ⟨k', hk', hlevel'⟩ := ih (huncut.mono (Nat.le_refl i) (Nat.le_succ j)) hbefore
    exact level_succ (huncut.tail hij) hk' hlevel' (hnobody j hij (Nat.lt_succ_self j))

/-- **Whoever is further inside has made a call from here.** -/
theorem entered_since (hij : i ≤ j) (huncut : x.Uncut t d i j) (hk : (x.state i).core t = some k)
    (hlevel : k.calls.length = d) (hk' : (x.state j).core t = some k') (hdeeper : d < k'.calls.length) :
    ∃ n callee, i ≤ n ∧ n < j ∧ x.callAt t d n = some callee := by
  by_contra hnobody
  have hheard : x.heard t d i j = [] := heard_eq_nil fun n hi hj =>
    Option.eq_none_iff_forall_ne_some.2 fun callee hcall => hnobody ⟨n, callee, hi, hj, hcall⟩
  obtain ⟨c, hc, hsame⟩ := level_of_unheard hij huncut hk hlevel hheard
  obtain rfl := Option.some.inj (hc.symm.trans hk')
  omega

end Execution

end Orchestra.Machine
