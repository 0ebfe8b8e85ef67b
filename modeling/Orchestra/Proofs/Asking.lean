import Orchestra.Proofs.Delivering
import Orchestra.Proofs.Parting

/-!
# What a task asks for

Everything that a task does it asks for, at whatever depth of calls.  So what it has asked for, in order, is all
that there is to say about it.

* `Execution.asked` — the operations for which a task asks with some steps; `operates_of_askedBy` — they are done;
* `Step.moves` — a task that asks for something is elsewhere afterwards, so nothing is asked for twice;
* `Execution.Recites` — a task comes to where it has asked for something of a sort, and has asked for the beginning of
  that before; `Recites.andThen`, `Recites.step` — one way after another, one step;
* `Program.Writes`, `Recites.call` — a body that writes some records and nothing else is not cut off by its limit;
* `Recites.publish` — a whole delivery to listeners with such bodies;
* `State.atEnd_of_ended` — a task ends only at the end of its program, or because it was told to;
* `Recites.arrives` — so it comes to where it is going.
-/

namespace Orchestra

open Machine

variable {A : Application} {α : Type} {w : World A}

/-- No answer brings a program back to where it was. -/
theorem Program.next_ne {op : Op A} {next : op.Answer → Program A α} (a : op.Answer) :
    next a ≠ .perform op next := by
  have hback : ∀ (p : Program A α) (op : Op A) (next : op.Answer → Program A α) (a : op.Answer),
      p = .perform op next → next a ≠ p := by
    intro p
    induction p with
    | done o => intro op next a heq; cases heq
    | perform op next ih =>
      intro op' next' a heq hsame
      cases heq
      exact ih a op next a hsame rfl
  exact hback _ op next a rfl

/-- A body that writes records, one after another, and then comes to its end. -/
inductive Program.Writes : Program A Outcome → List Record → Outcome → Prop where
  | done (o : Outcome) : Writes (.done o) [] o
  | record {r : Record} {next : Unit → Program A Outcome} {rs : List Record} {o : Outcome} :
      Writes (next ()) rs o → Writes (.perform (.record r) next) (r :: rs) o

section Handing

variable (cast : Cast) (b : BusId) (event : Event) (notes : ListenerId → List Record)

/-- What is asked for so that a listener is handed an event, of which it writes some records. -/
def Bus.handsTo (l : ListenerId) : List (Op A) :=
  .call (.onEvent l event) (cast.listenerLimit b) :: (notes l).map .record

/-- What is asked for in a delivery to some listeners. -/
def Bus.delivers (set : List ListenerId) : List (Op A) :=
  [.enclosing b, .beginDelivery b] ++ set.flatMap (Bus.handsTo cast b event notes) ++ [.endDelivery]

end Handing

namespace Machine

/-- What a task is about to ask for. -/
def Doing.asks? : Doing A → Option (Op A)
  | running (.perform op _) => some op
  | _ => none

/-- **A task that asks for something is elsewhere afterwards.** -/
theorem Step.moves {t : TaskId} {g g' : Buses} {k k' : Core A} {op : Op A} (h : Step w t g k g' k')
    (hasks : k.doing.asks? = some op) : k' ≠ k := by
  intro hsame
  obtain ⟨doing, calls, passes⟩ := k
  cases doing with
  | running p =>
    cases p with
    | done o => cases hasks
    | perform op' next =>
      have hgone : ∀ a, Doing.running (next a) ≠ .running (.perform op' next) := fun a heq =>
        Program.next_ne a (Doing.running.inj heq)
      cases h with
      | goes _ _ _ _ _ hnext =>
        obtain ⟨rfl, -⟩ := Core.mk.inj hsame
        obtain ⟨a, ha⟩ := hnext _ rfl
        exact hgone a (congrArg Doing.running ha.symm)
      | records => exact hgone _ (Core.mk.inj hsame).1
      | looks => exact hgone _ (Core.mk.inj hsame).1
      | ends => exact hgone _ (Core.mk.inj hsame).1
      | endsNothing => exact hgone _ (Core.mk.inj hsame).1
      | enters => exact List.cons_ne_self _ _ (Core.mk.inj hsame).2.1
      | leaves =>
        have hcalls := congrArg List.length (Core.mk.inj hsame).2.1
        rw [List.length_append, List.length_cons] at hcalls
        omega
      | wantsToBegin => cases hsame
      | wantsToRead => cases hsame
      | wantsToEdit => cases hsame
      | finishes => cases hsame
  | _ => cases hasks

namespace Execution

variable (x : Execution w) (t : TaskId)

/-- What task `t` asks for with the step after `n` steps. -/
def askedBy (n : Nat) : Option (Op A) :=
  if x.turn n = some t then ((x.state n).core t).bind fun k => k.doing.asks? else none

/-- What task `t` asks for with the steps from `i` to `j`, in order. -/
def asked (i j : Nat) : List (Op A) := (List.range' i (j - i)).filterMap (x.askedBy t)

variable {x t} {live : Prop} {d i j m n : Nat} {k k' : Core A}

@[simp] theorem asked_self (i : Nat) : x.asked t i i = [] := by
  rw [asked, Nat.sub_self]
  rfl

theorem asked_trans (hi : i ≤ m) (hj : m ≤ j) : x.asked t i j = x.asked t i m ++ x.asked t m j :=
  filterMap_steps_trans hi hj

theorem asked_succ (n : Nat) : x.asked t n (n + 1) = (x.askedBy t n).toList := filterMap_steps_succ n

/-- **What a task asks for is done** with that step. -/
theorem operates_of_askedBy {op : Op A} (h : x.askedBy t n = some op) :
    ∃ next calls passes, (x.state n).core t = some ⟨.running (.perform op next), calls, passes⟩ ∧
      x.state (n + 1) = (x.state n).operate w t op next := by
  rw [askedBy] at h
  split at h
  next hturn =>
    obtain ⟨⟨doing, calls, passes⟩, hk, hasks⟩ := Option.bind_eq_some_iff.1 h
    unfold Doing.asks? at hasks
    split at hasks
    next op' next heq =>
      obtain rfl := Option.some.inj hasks
      obtain rfl : doing = .running (.perform op' next) := heq
      exact ⟨next, calls, passes, hk, operates_of_turn hturn hk⟩
    next => cases hasks
  next => cases h

/-- A task that stays as it is asks for nothing. -/
theorem Rests.asked (h : x.Rests t k i j) : x.asked t i j = [] := by
  refine filterMap_steps_eq_nil_iff.2 fun n hi hj => ?_
  rw [askedBy]
  split
  next hturn =>
    have hk := h.core n hi (by omega)
    have hk' := h.core (n + 1) (by omega) (by omega)
    rw [hk, Option.bind_some]
    cases hasks : k.doing.asks? with
    | none => rfl
    | some op => exact absurd rfl ((step_of_turn hturn hk hk').moves hasks)
  next => rfl

/-- One step. -/
theorem Acts.asked_eq (h : x.Acts t d k i n k') : x.asked t i (n + 1) = k.doing.asks?.toList := by
  rw [asked_trans h.le (Nat.le_succ n), h.rests.asked, asked_succ, askedBy, if_pos h.turn, h.before, Option.bind_some]
  rfl

/-! ### Coming to a place -/

theorem Reaches.imp {I I' Q Q' : Nat → Prop} (h : x.Reaches t live d i I Q) (hI : ∀ j, i ≤ j → I j → I' j)
    (hQ : ∀ n, i ≤ n → Q n → Q' n) : x.Reaches t live d i I' Q' where
  followed j hj huncut := by
    rcases h.followed j hj huncut with hway | ⟨n, hi, hn, hthere⟩
    · exact .inl (hI j hj hway)
    · exact .inr ⟨n, hi, hn, hQ n hi hthere⟩
  comes hlive huncut := by
    obtain ⟨n, hi, hthere⟩ := h.comes hlive huncut
    exact ⟨n, hi, hQ n hi hthere⟩

/-- Since `i` task `t` has asked for something of which `R` holds, and so it does of what the task is doing. -/
def HasRecited (x : Execution w) (t : TaskId) (i : Nat) (R : List (Op A) → Core A → Prop) (n : Nat) : Prop :=
  ∃ k, (x.state n).core t = some k ∧ R (x.asked t i n) k

/-- Since `i` task `t` has asked for the beginning of something of which `R` holds, and it is not at the end of its
outermost program. -/
structure IsReciting (x : Execution w) (t : TaskId) (i : Nat) (R : List (Op A) → Core A → Prop) (j : Nat) :
    Prop where
  core : ∃ k, (x.state j).core t = some k ∧ ¬ k.AtEnd 0
  asked : ∃ ops k, R ops k ∧ x.asked t i j <+: ops

/-- Task `t` comes to where it has asked for something of which `R` holds, and is on its way before. -/
def Recites (x : Execution w) (t : TaskId) (live : Prop) (i : Nat) (R : List (Op A) → Core A → Prop) : Prop :=
  x.Reaches t live 0 i (x.IsReciting t i R) (x.HasRecited t i R)

/-- A task has asked for exactly this, and is exactly there. -/
def Exactly (ops : List (Op A)) (k : Core A) : List (Op A) → Core A → Prop := fun ops' k' => ops' = ops ∧ k' = k

theorem not_atEnd_of_perform {op : Op A} {next : op.Answer → Program A Outcome} {calls : Calls A}
    {passes : List Pass} (hop : ∀ payload, op ≠ .panic payload) :
    ¬ Core.AtEnd d (⟨.running (.perform op next), calls, passes⟩ : Core A) := by
  rintro ⟨p, o, hdoing, hends, -⟩
  cases hdoing
  cases hends
  exact hop _ rfl

namespace Recites

variable {R S : List (Op A) → Core A → Prop} {ops ops' : List (Op A)} {calls : Calls A} {passes : List Pass}

theorem here (hk : (x.state i).core t = some k) (hR : R [] k) : x.Recites t live i R :=
  Reaches.here ⟨k, hk, by rwa [asked_self]⟩

theorem mono (h : x.Recites t live i R) (hR : ∀ ops k, R ops k → S ops k) : x.Recites t live i S := by
  refine Reaches.imp h (fun j _ hway => ⟨hway.core, ?_⟩) fun n _ hthere => ?_
  · obtain ⟨ops, k, hops, hprefix⟩ := hway.asked
    exact ⟨ops, k, hR ops k hops, hprefix⟩
  · obtain ⟨k, hk, hops⟩ := hthere
    exact ⟨k, hk, hR _ k hops⟩

/-- One way after another. -/
theorem andThen (h : x.Recites t live i R) (hmore : ∀ ops k, R ops k → ∃ ops' k', S (ops ++ ops') k')
    (hnext : ∀ n ops k, i ≤ n → (x.state n).core t = some k → x.asked t i n = ops → R ops k →
      x.Recites t live n fun ops' k' => S (ops ++ ops') k') : x.Recites t live i S := by
  have hfirst : x.Reaches t live 0 i (x.IsReciting t i S) (x.HasRecited t i R) := by
    refine Reaches.imp h (fun j _ hway => ⟨hway.core, ?_⟩) fun _ _ hthere => hthere
    obtain ⟨ops, k, hR, hprefix⟩ := hway.asked
    obtain ⟨ops', k', hS⟩ := hmore ops k hR
    exact ⟨_, k', hS, hprefix.trans (List.prefix_append _ _)⟩
  refine hfirst.andThen fun n hi hthere => ?_
  obtain ⟨k, hk, hR⟩ := hthere
  refine Reaches.imp (hnext n _ k hi hk rfl hR) (fun j hj hway => ⟨hway.core, ?_⟩) fun m hm hthere => ?_
  · obtain ⟨ops, k, hS, hprefix⟩ := hway.asked
    refine ⟨_, k, hS, ?_⟩
    rw [asked_trans hi hj]
    exact (List.prefix_append_right_inj _).2 hprefix
  · obtain ⟨k, hk, hS⟩ := hthere
    exact ⟨k, hk, by rwa [asked_trans hi hm]⟩

/-- What comes after something that is known. -/
theorem followedBy (h : x.Recites t live i (Exactly ops k)) (hmore : ∃ ops' k', S (ops ++ ops') k')
    (hnext : ∀ n, i ≤ n → (x.state n).core t = some k → x.asked t i n = ops →
      x.Recites t live n fun ops' k' => S (ops ++ ops') k') : x.Recites t live i S := by
  refine h.andThen (fun _ _ hR => ?_) fun n _ _ hi hk hasked hR => ?_
  · obtain ⟨rfl, rfl⟩ := hR
    exact hmore
  · obtain ⟨rfl, rfl⟩ := hR
    exact hnext n hi hk hasked

theorem trans (h : x.Recites t live i (Exactly ops k))
    (h' : ∀ n, i ≤ n → (x.state n).core t = some k → x.Recites t live n (Exactly ops' k')) :
    x.Recites t live i (Exactly (ops ++ ops') k') :=
  h.followedBy ⟨ops', k', rfl, rfl⟩ fun n hi hk _ => (h' n hi hk).mono fun _ _ hR =>
    ⟨congrArg (ops ++ ·) hR.1, hR.2⟩

/-- The next step of a task that gets its turn. -/
theorem step (hk : (x.state i).core t = some k) (hend : ¬ k.AtEnd 0)
    (hturn : live → (∀ j, x.Uncut t 0 i j) → ∃ m, i ≤ m ∧ x.turn m = some t)
    (hmore : ∃ k', R k.doing.asks?.toList k')
    (hnext : ∀ n k', x.Acts t 0 k i n k' → R k.doing.asks?.toList k') : x.Recites t live i R := by
  obtain ⟨k₁, hk₁⟩ := hmore
  have hway : ∀ j, i ≤ j → x.Rests t k i j → x.IsReciting t i R j := fun j hj hrests =>
    ⟨⟨k, hrests.last hj, hend⟩, _, k₁, hk₁, hrests.asked ▸ List.nil_prefix⟩
  refine Reaches.imp (Reaches.step hk hway hturn) (fun _ _ h => h) fun n _ hthere => ?_
  obtain ⟨m, k', rfl, hacts⟩ := hthere
  exact ⟨k', hacts.after, hacts.asked_eq ▸ hnext m k' hacts⟩

/-- A task that goes on asks for the next operation of its program. -/
theorem perform {op : Op A} {next : op.Answer → Program A Outcome} (hlive : live → x.Attends t)
    (hk : (x.state i).core t = some ⟨.running (.perform op next), calls, passes⟩) (hop : ∀ payload, op ≠ .panic payload)
    (hmore : ∃ k', R [op] k')
    (hnext : ∀ n k', x.Acts t 0 ⟨.running (.perform op next), calls, passes⟩ i n k' → R [op] k') :
    x.Recites t live i R :=
  step hk (not_atEnd_of_perform hop) (fun h _ => (hlive h).served i (State.ready_of_running hk)) hmore hnext

end Recites

/-! ### What is asked for on the way -/

/-- Whoever calls a body goes on with it. -/
theorem Acts.entered {callee : Callee} {limit : Option Duration} {next : Outcome → Program A Outcome}
    {calls : Calls A} {passes : List Pass}
    (h : x.Acts t d ⟨.running (.perform (.call callee limit) next), calls, passes⟩ i n k') :
    k' = ⟨.running (w.body callee), (passes.length, next) :: calls, passes⟩ := by
  have htimed := timed_of_turn h.turn h.before h.after
  generalize (x.state n).limits t = ls, (x.state (n + 1)).limits t = ls' at htimed
  cases htimed with
  | stays _ hstays =>
    obtain ⟨op, next', heq, hop⟩ := hstays _ rfl
    obtain ⟨rfl, -⟩ := Program.perform.inj heq
    exact hop.elim
  | enters => rfl
  | finishes hended => exact absurd hended h.goesOn

/-- Whoever has come to the end of a body goes on after the call. -/
theorem Acts.left {o : Outcome} {next : Outcome → Program A Outcome} {calls : Calls A} {passes : List Pass}
    (h : x.Acts t d ⟨.running (.done o), (passes.length, next) :: calls, passes⟩ i n k') :
    k' = ⟨.running (next o), calls, passes⟩ := by
  have htimed := timed_of_turn h.turn h.before h.after
  generalize (x.state n).limits t = ls, (x.state (n + 1)).limits t = ls' at htimed
  have hcalls : k'.calls = calls := htimed.of_done h.goesOn
  have hdoing : k'.doing = .running (next o) := by
    cases htimed with
    | stays _ hstays =>
      obtain ⟨_, _, heq, -⟩ := hstays _ rfl
      cases heq
    | returns => rfl
    | finishes hended => exact absurd hended h.goesOn
  have hhere : Inside next calls passes ⟨.running (.done o), (passes.length, next) :: calls, passes⟩ :=
    ⟨⟨[], rfl, fun f hf => (nomatch hf)⟩, [], rfl⟩
  rcases h.step.inside hhere h.goesOn (Nat.le_of_eq (congrArg List.length hcalls.symm)) with
    ⟨⟨inner, hinner, -⟩, -⟩ | ⟨o', rfl⟩
  · rw [hcalls] at hinner
    exact absurd (Nat.le_of_eq (congrArg List.length hinner.symm)) not_shorter
  · exact congrArg (fun doing => Core.mk doing calls passes) hdoing

namespace Recites

variable {R : List (Op A) → Core A → Prop} {calls : Calls A} {passes : List Pass}

theorem record {r : Record} {next : Unit → Program A Outcome} (hlive : live → x.Attends t)
    (hk : (x.state i).core t = some ⟨.running (.perform (.record r) next), calls, passes⟩) :
    x.Recites t live i (Exactly [.record r] ⟨.running (next ()), calls, passes⟩) :=
  perform hlive hk (fun _ => nofun) ⟨_, rfl, rfl⟩ fun n k' hacts =>
    ⟨rfl, hacts.becomes ((x.state n).log r) (.running (next ())) (by rw [hacts.operates]; rfl) rfl⟩

theorem cancel {token : TokenId} {next : Unit → Program A Outcome} (hlive : live → x.Attends t)
    (hk : (x.state i).core t = some ⟨.running (.perform (.cancel token) next), calls, passes⟩) :
    x.Recites t live i (Exactly [.cancel token] ⟨.running (next ()), calls, passes⟩) :=
  perform hlive hk (fun _ => nofun) ⟨_, rfl, rfl⟩ fun n k' hacts =>
    ⟨rfl, hacts.becomes (x.state n) (.running (next ()))
      (by rw [hacts.operates]; exact congrFun (State.core_eq (State.cancel_tasks _ token)) t) rfl⟩

/-- A task that asks whether a token has been cancelled, while it has not. -/
theorem isCancelled {token : TokenId} {next : Bool → Program A Outcome} (hlive : live → x.Attends t)
    (hquiet : ∀ n, i ≤ n → x.asked t i n = [] → (x.state n).isCancelled token = false)
    (hk : (x.state i).core t = some ⟨.running (.perform (.isCancelled token) next), calls, passes⟩) :
    x.Recites t live i (Exactly [.isCancelled token] ⟨.running (next false), calls, passes⟩) :=
  perform hlive hk (fun _ => nofun) ⟨_, rfl, rfl⟩ fun n k' hacts =>
    ⟨rfl, hacts.becomes (x.state n) (.running (next false))
      (by rw [hacts.operates, State.operate, hquiet n hacts.le hacts.rests.asked, State.resume]) rfl⟩

/-- A task that waits for a moment, whatever else it waits for, goes on after that. -/
theorem elapse {wait : Wait A} {due : Nat} (hdue : wait.due? = some due)
    (hlive : live → x.Attends t ∧ ∃ m, i ≤ m ∧ (due ≤ (x.state m).now ∨ x.turn m = some t))
    (hk : (x.state i).core t = some ⟨.waiting wait, calls, passes⟩) (hmore : ∃ k', R [] k')
    (hnext : ∀ n k', x.Acts t 0 ⟨.waiting wait, calls, passes⟩ i n k' → R [] k') : x.Recites t live i R := by
  refine step hk (fun hend => nomatch hend) (fun h huncut => ?_) hmore hnext
  obtain ⟨hattends, m, hm, hpast | hturn⟩ := hlive h
  · rcases first_turn (huncut m) hm hk with hrests | ⟨l, k', -, hacts⟩
    · have hready := State.ready_of_mem_dues (w := w) ((State.mem_dues_iff (hrests.last hm)).2 (.inl hdue)) hpast
      obtain ⟨m', hm', hturn⟩ := hattends.served m hready
      exact ⟨m', Nat.le_trans hm hm', hturn⟩
    · exact ⟨l, hacts.le, hacts.turn⟩
  · exact ⟨m, hm, hturn⟩

/-- A task that sleeps wakes up. -/
theorem sleep {millis : Nat} {next : Unit → Program A Outcome} (hlive : live → x.Attends t ∧ x.Wakes t)
    (hk : (x.state i).core t = some ⟨.running (.perform (.sleep millis) next), [], passes⟩) :
    x.Recites t live i (Exactly [.sleep millis] ⟨.running (next ()), [], passes⟩) := by
  have hfalls : x.Recites t live i fun ops k =>
      ops = [.sleep millis] ∧ ∃ due, k = ⟨.waiting (.sleeping due (next ())), [], passes⟩ :=
    perform (fun h => (hlive h).1) hk (fun _ => nofun) ⟨_, rfl, 0, rfl⟩ fun n k' hacts => ⟨rfl, _, asleep_of_acts hacts⟩
  refine hfalls.andThen (fun ops k hops => ⟨[], _, ?_, rfl⟩) fun n ops k _ hk' _ hops => ?_
  · rw [hops.1, List.append_nil]
  · obtain ⟨rfl, due, rfl⟩ := hops
    refine elapse rfl (fun h => ⟨(hlive h).1, (hlive h).2 n due _ _ _ hk'⟩) hk' ⟨_, rfl, rfl⟩ fun m k' hacts => ?_
    have houtermost : x.Acts t ([] : Calls A).length _ n m k' := hacts
    exact ⟨rfl, (awake_of_acts houtermost).2⟩

/-- A task that waits for a token, while that is not cancelled, goes on in the end. -/
theorem awaitCancelFor {token : TokenId} {millis : Nat} {next : Bool → Program A Outcome}
    (hlive : live → x.Attends t ∧ x.Lapses t)
    (hquiet : ∀ n, i ≤ n → x.asked t i n <+: [.awaitCancelFor token millis] →
      (x.state n).isCancelled token = false)
    (hk : (x.state i).core t = some ⟨.running (.perform (.awaitCancelFor token millis) next), [], passes⟩) :
    x.Recites t live i (Exactly [.awaitCancelFor token millis] ⟨.running (next false), [], passes⟩) := by
  have hbegins : x.Recites t live i fun ops k => ops = [.awaitCancelFor token millis] ∧
      ∃ due, k = ⟨.waiting (.cancelledBy token due next), [], passes⟩ :=
    perform (fun h => (hlive h).1) hk (fun _ => nofun) ⟨_, rfl, 0, rfl⟩ fun n k' hacts =>
      ⟨rfl, _, hacts.becomes (x.state n) (.waiting (.cancelledBy token ((x.state n).now + millis) next) none)
        (by rw [hacts.operates]; rfl) rfl⟩
  refine hbegins.andThen (fun ops k hops => ⟨[], _, ?_, rfl⟩) fun n ops k hi hk' hasked hops => ?_
  · rw [hops.1, List.append_nil]
  · obtain ⟨rfl, due, rfl⟩ := hops
    refine elapse rfl (fun h => ⟨(hlive h).1, (hlive h).2 n token due _ _ _ hk'⟩) hk' ⟨_, rfl, rfl⟩
      fun m k' hacts => ?_
    have houtermost : x.Acts t ([] : Calls A).length _ n m k' := hacts
    obtain ⟨wait, hbare, hproceed⟩ := houtermost.proceeds
    have hopen : (x.state m).isCancelled token = false := by
      refine hquiet m (Nat.le_trans hi hacts.le) ?_
      rw [asked_trans hi hacts.le, hasked, hacts.rests.asked, List.append_nil]
    cases wait <;> cases hbare
    rw [State.proceed, hopen, if_neg Bool.false_ne_true] at hproceed
    obtain ⟨-, hresumes⟩ := Option.ite_none_right_eq_some.1 hproceed
    exact ⟨rfl, houtermost.becomes (x.state m) (.running (next false)) (by rw [← Option.some.inj hresumes]; rfl) rfl⟩

/-- A body that has come to its end is left. -/
theorem leave {o : Outcome} {next : Outcome → Program A Outcome} (hlive : live → x.Attends t)
    (hk : (x.state i).core t = some ⟨.running (.done o), (passes.length, next) :: calls, passes⟩) :
    x.Recites t live i (Exactly [] ⟨.running (next o), calls, passes⟩) := by
  refine step hk (fun hend => ?_) (fun h _ => (hlive h).served i (State.ready_of_running hk)) ⟨_, rfl, rfl⟩
    fun n k' hacts => ⟨rfl, ?_⟩
  · obtain ⟨_, _, -, -, hcalls⟩ := hend
    exact absurd hcalls (Nat.succ_ne_zero _)
  · exact hacts.left

/-- A body that writes some records does so, and is left. -/
theorem writes {p : Program A Outcome} {rs : List Record} {o : Outcome} {next : Outcome → Program A Outcome}
    (hwrites : p.Writes rs o) (hlive : live → x.Attends t)
    (hk : (x.state i).core t = some ⟨.running p, (passes.length, next) :: calls, passes⟩) :
    x.Recites t live i (Exactly (rs.map .record) ⟨.running (next o), calls, passes⟩) := by
  induction hwrites generalizing i with
  | done o => exact leave hlive hk
  | record _ ih => exact (record hlive hk).trans fun n _ hk' => ih hk'

/-- A call of such a body, whatever its limit. -/
theorem call {callee : Callee} {limit : Option Duration} {rs : List Record} {o : Outcome}
    {next : Outcome → Program A Outcome} (hbody : (w.body callee).Writes rs o) (hlive : live → x.Attends t)
    (hk : (x.state i).core t = some ⟨.running (.perform (.call callee limit) next), calls, passes⟩) :
    x.Recites t live i (Exactly (.call callee limit :: rs.map .record) ⟨.running (next o), calls, passes⟩) := by
  have henters : x.Recites t live i (Exactly [.call callee limit]
      ⟨.running (w.body callee), (passes.length, next) :: calls, passes⟩) := by
    refine perform hlive hk (fun _ => nofun) ⟨_, rfl, rfl⟩ fun n k' hacts => ⟨rfl, hacts.entered⟩
  exact henters.trans fun n _ hk' => writes hbody hlive hk'

/-! ### Deliveries -/

section Delivery

variable {cast : Cast} {b : BusId} {event : Event} {notes : ListenerId → List Record}
  {next : Delivery → Program A Outcome} (hbody : ∀ l, (w.body (.onEvent l event)).Writes (notes l) (.ok ()))
include hbody

/-- Listeners with such bodies are called one after another, and each of them handles the event. -/
theorem deliverTo (hlive : live → x.Attends t) (set : List ListenerId) {e : Delivery}
    (hk : (x.state i).core t = some ⟨.running ((Bus.deliverTo cast b event set e).bind next), calls, passes⟩) :
    x.Recites t live i (Exactly (set.flatMap (Bus.handsTo cast b event notes))
      ⟨.running (next (set.foldl (fun e _ => e.handled) e)), calls, passes⟩) := by
  induction set generalizing i e with
  | nil => exact here hk ⟨rfl, rfl⟩
  | cons l rest ih =>
    obtain ⟨next', hcall, hok, -⟩ := Bus.deliverTo_cons cast b event l rest e next
    rw [hcall] at hk
    refine (call (hbody l) hlive hk).trans fun n _ hk' => ?_
    rw [hok] at hk'
    exact ih hk'

/-- **A delivery to listeners with such bodies**, outside of any other: it is begun, everybody who is registered
at that moment is called, and it is ended. -/
theorem publish {p : Program A Outcome} (hp : Bus.Publishes cast b event none p next)
    (hlive : live → x.Attends t ∧ x.Admits t b) {P : List ListenerId → Prop} (hP : ∃ set, P set)
    (hset : ∀ m, i ≤ m → x.turn m = some t → x.asked t i m = [.enclosing b, .beginDelivery b] →
      P (x.listeners b m))
    (hk : (x.state i).core t = some ⟨.running p, [], []⟩) :
    x.Recites t live i fun ops k => ∃ set e, P set ∧ ops = Bus.delivers cast b event notes set ∧
      k = ⟨.running (next e), [], []⟩ := by
  have hattends : live → x.Attends t := fun h => (hlive h).1
  obtain ⟨next', rfl, hnone, -⟩ := hp.program
  -- The task looks for a delivery around it, of which there is none, and asks for the lock.
  have hlooks : x.Recites t live i (Exactly [.enclosing b] ⟨.running (next' none), [], []⟩) :=
    perform hattends hk (fun _ => nofun) ⟨_, rfl, rfl⟩ fun n k' hacts =>
      ⟨rfl, Step.of_enclosing hacts.goesOn hacts.outermost hacts.step⟩
  refine hlooks.followedBy ?_ fun n₁ hn₁ hk₁ hasked₁ => ?_
  · obtain ⟨set, hset⟩ := hP
    exact ⟨_, _, set, {}, hset, rfl, rfl⟩
  rw [hnone] at hk₁
  have hasks : x.Recites t live n₁ (Exactly [.beginDelivery b]
      ⟨.waiting (.beginning b (Bus.deliverThen cast b event none next)), [], []⟩) :=
    perform hattends hk₁ (fun _ => nofun) ⟨_, rfl, rfl⟩ fun n k' hacts =>
      ⟨rfl, Step.of_beginDelivery hacts.goesOn hacts.outermost hacts.step⟩
  refine hasks.followedBy ?_ fun n₂ hn₂ hk₂ hasked₂ => ?_
  · obtain ⟨set, hset⟩ := hP
    exact ⟨_, _, set, {}, hset, rfl, rfl⟩
  -- It is granted the lock, and holds the listeners of the moment.
  have hbegins : x.Recites t live n₂ fun ops k => ops = [] ∧ ∃ set, P set ∧
      k = ⟨.running (Bus.deliverThen cast b event none next set), [], [⟨b, set⟩]⟩ := by
    refine step hk₂ (fun hend => nomatch hend) (fun h _ => ?_) ?_ fun n k' hacts => ⟨rfl, ?_⟩
    · obtain ⟨m, hm, hready⟩ := (hlive h).2 n₂ _ _ _ hk₂
      obtain ⟨m', hm', hturn⟩ := (hlive h).1.served m hready
      exact ⟨m', Nat.le_trans hm hm', hturn⟩
    · obtain ⟨set, hset⟩ := hP
      exact ⟨_, rfl, set, hset, rfl⟩
    · obtain ⟨bs, hbs, -, rfl⟩ := Step.of_beginning hacts.goesOn hacts.outermost hacts.step
      have hlisteners : x.listeners b n = bs.listeners := State.listenersOf_eq hbs
      have hasked : x.asked t i n = [.enclosing b, .beginDelivery b] := by
        rw [asked_trans (Nat.le_trans hn₁ hn₂) hacts.le, asked_trans hn₁ hn₂, hasked₁, hasked₂, hacts.rests.asked]
        rfl
      refine ⟨bs.listeners, hlisteners ▸ hset n ?_ hacts.turn hasked, rfl⟩
      exact Nat.le_trans hn₁ (Nat.le_trans hn₂ hacts.le)
  refine hbegins.andThen (fun ops k hops => ?_) fun n₃ ops k hn₃ hk₃ _ hops => ?_
  · obtain ⟨rfl, set, hset, -⟩ := hops
    exact ⟨_, _, set, {}, hset, rfl, rfl⟩
  obtain ⟨rfl, set, hset, rfl⟩ := hops
  -- Everybody is called, and the delivery is ended.
  have hhands := deliverTo hbody hattends (set.filter (Bus.isMeant cast none)) hk₃
  have hall : set.filter (Bus.isMeant cast none) = set := List.filter_true set
  rw [hall] at hhands
  have hdelivers := hhands.trans fun n _ hk₄ => show x.Recites t live n (Exactly [.endDelivery] _) from
    perform hattends hk₄ (fun _ => nofun) ⟨_, rfl, rfl⟩ fun n k' hacts =>
      ⟨rfl, Step.of_endDelivery hacts.goesOn hacts.outermost (Nat.zero_le _) hacts.step⟩
  refine hdelivers.mono fun ops k hops => ⟨set, _, hset, ?_, hops.2⟩
  rw [hops.1]
  rfl

end Delivery

end Recites

end Execution

/-! ### How a task comes to its end -/

namespace State

variable {w : World A} {s s' : State A} {t : TaskId} {c c' : Core A}

/-- A task that goes on has not ended. -/
theorem live_resume (h : s.core t = some c) (p : Program A Outcome) :
    ∃ k, (s.resume t p).core t = some k ∧ k.doing ≠ .ended :=
  ⟨_, core_setStatus h (.running p), by rintro ⟨⟩⟩

/-- A task that waits has not ended. -/
theorem live_await (h : s.core t = some c) (wait : Wait A) :
    ∃ k, (s.await t wait).core t = some k ∧ k.doing ≠ .ended :=
  ⟨_, core_setStatus h (.waiting wait none), by rintro ⟨⟩⟩

theorem core_claim_self (h : s.core t = some c) (b : BusId) (claim : Claim) : (s.claim b claim).core t = some c :=
  (congrFun (core_claim s b claim) t).trans h

/-- A task that asks for something does not end with that, unless it panics. -/
theorem operate_live {op : Op A} {next : op.Answer → Program A Outcome} (hop : ∀ payload, op ≠ .panic payload)
    (h : s.core t = some c) :
    ∃ k, (s.operate w t op next).core t = some k ∧ k.doing ≠ .ended := by
  obtain ⟨k, hk, -⟩ := Option.map_eq_some_iff.1 h
  cases op with
  | panic payload => exact absurd rfl (hop payload)
  | call callee limit => exact ⟨_, core_onTask_self hk _, by rintro ⟨⟩⟩
  | beginDelivery b => exact live_await (core_claim_self h b ⟨t, .read⟩) _
  | listeners b => exact live_await (core_claim_self h b ⟨t, .read⟩) _
  | edit b e => exact live_await (core_claim_self h b ⟨t, .write⟩) _
  | endDelivery =>
    obtain ⟨k', hk', -⟩ := endPass_task hk
    exact live_resume (core_of_task hk') (next ())
  | cancel token =>
    rw [operate, core_eq (cancel_tasks _ token)]
    exact live_resume h (next ())
  | spawn name job => exact live_resume ((Grown.startTask w s .task job).core_of h) (next ())
  | hire crew name job =>
    have hgrown := Grown.startTask w (s.onCrew crew fun c => (c.enrol name).1)
      (.worker crew (((s.crews[crew]?).map CrewState.next).getD 0) name) job
    exact live_resume (hgrown.core_of h) (next ())
  | join name =>
    rw [operate]
    split
    · exact live_resume h (next none)
    · exact live_await h _
  | abort name =>
    rw [operate]
    split
    · exact live_resume h (next ())
    · rw [core_abort]
      exact live_resume h (next ())
  | awaitTermination request =>
    rw [operate]
    obtain ⟨-, heq⟩ | ⟨handled, -, ⟨g, error, -, heq⟩ | ⟨-, heq⟩⟩ := awaitTermination_cases s t request next
    · rw [heq]
      exact live_resume h _
    · rw [heq]
      exact live_resume (s := { s with handled := handled }) h _
    · rw [heq]
      exact live_await (s := { s with handled := handled }) h _
  | sleep | hang | awaitCancel | awaitCancelFor | awaitCrew | exit => exact live_await h _
  | _ => exact live_resume h _

/-- A task whose wait is over does not end with that. -/
theorem proceed_live {wait : Wait A} (h : s.core t = some c) (hgoes : s.proceed t wait = some s') :
    ∃ k, s'.core t = some k ∧ k.doing ≠ .ended := by
  obtain ⟨k, hk, -⟩ := Option.map_eq_some_iff.1 h
  cases wait with
  | beginning b next =>
    rw [proceed] at hgoes
    split at hgoes
    · cases hgoes
    · obtain rfl := Option.some.inj hgoes
      exact live_resume (core_onTask_self hk _) _
  | reading b next =>
    rw [proceed] at hgoes
    split at hgoes
    · cases hgoes
    · obtain rfl := Option.some.inj hgoes
      rw [core_eq (onLock_tasks _ b _)]
      exact live_resume h _
  | editing b e next =>
    rw [proceed] at hgoes
    split at hgoes
    · cases hgoes
    · obtain rfl := Option.some.inj hgoes
      exact live_await h _
  | replacing b e copy next =>
    obtain rfl := Option.some.inj hgoes
    rw [core_eq (onLock_tasks _ b _)]
    exact live_resume h _
  | _ =>
    obtain ⟨p, -, rfl⟩ := resumes_of_proceed rfl hgoes
    exact live_resume h p

/-- **A task ends only at the end of its outermost program**, or because it was told to. -/
theorem atEnd_of_ended (hadvance : s.advance w t = some s') (hc : s.core t = some c) (hc' : s'.core t = some c')
    (hended : c'.doing = .ended) : (∃ k, s.tasks[t]? = some k ∧ k.aborted = true) ∨ c.AtEnd 0 := by
  by_cases hcalls : c.calls = []
  · have hdead : ∀ {s₁ : State A}, (∃ k, s₁.core t = some k ∧ k.doing ≠ .ended) → s₁ ≠ s' := by
      rintro s₁ ⟨k, hk, hlive⟩ rfl
      exact hlive (Option.some.inj (hk.symm.trans hc') ▸ hended)
    obtain ⟨k, hk, rfl⟩ := Option.map_eq_some_iff.1 hc
    have hframes : k.frames = [] := List.map_eq_nil_iff.1 hcalls
    rw [advance, hk] at hadvance
    dsimp only at hadvance
    cases hstatus : k.status with
    | ended e =>
      rw [hstatus] at hadvance
      cases hadvance
    | running p =>
      have hdoing : k.core.doing = .running p := by rw [Task.core, hstatus]; rfl
      have hlength : k.core.calls.length = 0 := List.length_eq_zero_iff.2 hcalls
      rw [hstatus] at hadvance
      cases p with
      | done o => exact .inr ⟨_, o, hdoing, .done o, hlength⟩
      | perform op next =>
        by_cases hop : ∀ payload, op ≠ .panic payload
        · exact absurd (Option.some.inj hadvance) (hdead (operate_live hop hc))
        · obtain ⟨payload, hpayload⟩ := not_forall.1 hop
          obtain rfl := not_not.1 hpayload
          exact .inr ⟨_, _, hdoing, .panics payload next, hlength⟩
    | waiting wait stamp =>
      rw [hstatus, hframes] at hadvance
      dsimp only at hadvance
      split at hadvance
      · next haborted => exact .inl ⟨k, hk, haborted⟩
      · split at hadvance
        · next s₁ hproceed => exact absurd (Option.some.inj hadvance) (hdead (proceed_live hc hproceed))
        · cases hadvance
  · exact .inl (aborted_of_ended hadvance hc hcalls hc' hended)

end State

namespace Execution

variable {x : Execution w} {t : TaskId} {live : Prop} {i j n : Nat} {k k' : Core A}

theorem atEnd_of_ended (hk : (x.state n).core t = some k) (hlive : k.doing ≠ .ended)
    (hk' : (x.state (n + 1)).core t = some k') (hended : k'.doing = .ended) :
    (∃ task, (x.state n).tasks[t]? = some task ∧ task.aborted = true) ∨ k.AtEnd 0 := by
  rcases turn_of_ended hk hlive hk' hended with haborted | hturn
  · exact .inl haborted
  · exact State.atEnd_of_ended (advance_of_turn hturn) hk hk' hended

/-- At the end of its outermost program a task asks for nothing more. -/
theorem rests_of_atEnd (hend : k.AtEnd 0) (hij : i ≤ j) (huncut : x.Uncut t 0 i j)
    (hk : (x.state i).core t = some k) : x.Rests t k i j := by
  rcases first_turn huncut hij hk with hrests | ⟨n, k', -, hacts⟩
  · exact hrests
  · obtain ⟨doing, calls, passes⟩ := k
    obtain ⟨p, o, rfl, hends, hcalls⟩ := hend
    obtain rfl : calls = [] := List.length_eq_zero_iff.1 hcalls
    exact absurd hacts (not_acts_outermost hends)

namespace Recites

variable {R : List (Op A) → Core A → Prop}

section Over

variable (h : x.Recites t live i R) (hend : ∀ ops k, R ops k → k.AtEnd 0) (hij : i ≤ j) (huncut : x.Uncut t 0 i j)
include h hend hij huncut

/-- What a task that comes to its end asks for is at any time the beginning of something of which `R` holds. -/
theorem asked_prefix : ∃ ops k, R ops k ∧ x.asked t i j <+: ops := by
  rcases h.followed j hij huncut with hway | ⟨n, hi, hn, k, hk, hR⟩
  · exact hway.asked
  · have hall : x.asked t i j = x.asked t i n := by
      rw [asked_trans hi hn, (rests_of_atEnd (hend _ k hR) hn (huncut.tail hi) hk).asked, List.append_nil]
    exact ⟨_, k, hR, hall ▸ List.prefix_refl _⟩

/-- At the end it has asked for all of it. -/
theorem asked_atEnd (hk : (x.state j).core t = some k) (hover : k.AtEnd 0) : R (x.asked t i j) k := by
  rcases h.followed j hij huncut with hway | ⟨n, hi, hn, k', hk', hR⟩
  · obtain ⟨k', hk', hnot⟩ := hway.core
    obtain rfl := Option.some.inj (hk.symm.trans hk')
    exact absurd hover hnot
  · have hrests := rests_of_atEnd (hend _ k' hR) hn (huncut.tail hi) hk'
    obtain rfl := Option.some.inj (hk.symm.trans (hrests.last hn))
    rwa [asked_trans hi hn, hrests.asked, List.append_nil]

end Over

/-- **A task that is never told to end comes to where it is going.** -/
theorem arrives (h : x.Recites t live i R) (hlive : live) (hk : (x.state i).core t = some k)
    (hdoing : k.doing ≠ .ended)
    (hfree : ∀ n task, i ≤ n → (x.state n).tasks[t]? = some task → task.aborted = false) :
    ∃ n, i ≤ n ∧ x.Uncut t 0 i n ∧ x.HasRecited t i R n := by
  by_contra hnever
  -- It cannot end before it has come there, and so it does not end at all.
  have huncut : ∀ j, i ≤ j → x.Uncut t 0 i j := by
    intro j hij
    induction hij with
    | refl =>
      intro n hi hn
      obtain rfl := Nat.le_antisymm hn hi
      exact ⟨k, hk, hdoing, Nat.zero_le _⟩
    | @step j hij ih =>
      obtain ⟨k₁, hk₁, hnot⟩ : ∃ k, (x.state j).core t = some k ∧ ¬ k.AtEnd 0 := by
        rcases h.followed j hij ih with hway | ⟨n, hi, hn, hthere⟩
        · exact hway.core
        · exact absurd ⟨n, hi, ih.mono (Nat.le_refl i) hn, hthere⟩ hnever
      obtain ⟨k₂, hk₂, hlive₁, -⟩ := ih j hij (Nat.le_refl j)
      obtain rfl := Option.some.inj (hk₁.symm.trans hk₂)
      obtain ⟨k', hk'⟩ := x.core_succ hk₁
      intro n hi hn
      rcases Nat.lt_or_eq_of_le hn with hn | rfl
      · exact ih n hi (Nat.le_of_lt_succ hn)
      · refine ⟨k', hk', fun hended => ?_, Nat.zero_le _⟩
        rcases atEnd_of_ended hk₁ hlive₁ hk' hended with ⟨task, htask, haborted⟩ | hend
        · rw [hfree j task hij htask] at haborted
          cases haborted
        · exact hnot hend
  obtain ⟨n, hi, hthere⟩ := h.comes hlive fun j => fun n hi hn => huncut n hi n hi (Nat.le_refl n)
  exact hnever ⟨n, hi, huncut n hi, hthere⟩

end Recites

end Execution

end Machine

end Orchestra
