import Orchestra.Proofs.Calling
import Orchestra.Proofs.Deadlines
import Orchestra.Proofs.Publications
import Orchestra.Proofs.Staging

/-!
# Nested deliveries are a recursion

On a bus whose listeners have all the time they need, everything that comes of an event happens in the order
of a call tree, however many tasks there are.

* `Execution.Arrives` — a task comes to a certain place, and who has been called in between; with one rule for
  each kind of step: `Arrives.step`, `Arrives.aside`, `Arrives.begins`, `Arrives.call`, `Arrives.andThen`;
* `Execution.Resumes`, `Execution.Admits` — the task is not kept waiting for ever;
* `Arrives.deliver` — a delivery, given what the bodies of the listeners do;
* `Execution.body_arrives` — the body of a listener, by induction on its behaviour;
* `nested_delivery_is_recursive` — the calls are the tree in pre-order, and everybody who publishes is told
  what the recursion comes to.
-/

namespace Orchestra

open Machine

variable {A : Application} {w : World A}

/-- A body has come to its end with an outcome, or panics. -/
inductive Program.EndsWith : Program A Outcome → Outcome → Prop where
  | done (o : Outcome) : EndsWith (.done o) o
  | panics (payload : Payload) (next : Empty → Program A Outcome) :
      EndsWith (.perform (.panic payload) next) (.error (.panicked payload.message))

theorem Program.EndsWith.unique {p : Program A Outcome} {o o' : Outcome} (h : p.EndsWith o)
    (h' : p.EndsWith o') : o = o' := by
  cases h <;> cases h' <;> rfl

namespace Machine

/-- Inside of `d` calls and no more, a body has come to its end, or panics. -/
def Core.AtEnd (d : Nat) (k : Core A) : Prop :=
  ∃ p o, k.doing = .running p ∧ p.EndsWith o ∧ k.calls.length = d

/-- A task takes part in publishing an event on a bus: it is about to look for a delivery around it, to begin
or to end one, to call a listener, or to make a record. -/
def Doing.IsPublishing (b : BusId) (event : Event) : Doing A → Prop
  | running (.perform (.enclosing b') _) | running (.perform (.beginDelivery b') _)
  | waiting (.beginning b' _) => b' = b
  | running (.perform (.call (.onEvent _ event') _) _) => event' = event
  | running (.perform (.record _) _) | running (.perform .endDelivery _) => True
  | _ => False

/-- A task publishes an event from within `d` calls, and may be further inside. -/
def Core.IsPublishing (b : BusId) (event : Event) (d : Nat) (k : Core A) : Prop :=
  d < k.calls.length ∨ k.calls.length = d ∧ k.doing.IsPublishing b event

theorem Core.IsPublishing.not_atEnd {b : BusId} {event : Event} {d : Nat} {k : Core A}
    (h : k.IsPublishing b event d) : ¬ k.AtEnd d := by
  rintro ⟨p, o, hdoing, hends, hlevel⟩
  rcases h with hdeeper | ⟨-, hpublishing⟩
  · omega
  · rw [hdoing] at hpublishing
    cases hends <;> exact hpublishing

namespace Execution

/-! ### Coming to a place -/

/-- Whatever task `t` waits for from within more than `d` calls, other than the lock of a bus, comes. -/
def Resumes (x : Execution w) (t : TaskId) (d : Nat) : Prop :=
  ∀ n wait calls passes, d < calls.length → (x.state n).core t = some ⟨.waiting wait, calls, passes⟩ →
    wait.claim? t = none → ∃ m, n ≤ m ∧ x.turn m = some t

/-- Whenever task `t` waits to begin a delivery on a bus, it can do so some time. -/
def Admits (x : Execution w) (t : TaskId) (b : BusId) : Prop :=
  ∀ n next calls passes, (x.state n).core t = some ⟨.waiting (.beginning b next), calls, passes⟩ →
    ∃ m, n ≤ m ∧ ((x.state m).advance w t).isSome

/-- Task `t`, inside of `d` calls after `i` steps, comes to where `Q` holds of it and of those that it has
called in between.  As long as it is not cut off from the calls it is on its way, as `I` says, or has come
there; and it comes there if nothing keeps it from going on. -/
structure Arrives (x : Execution w) (t : TaskId) (live : Prop) (d i : Nat) (I : Core A → Prop)
    (Q : List Callee → Core A → Prop) : Prop where
  followed : ∀ j, i ≤ j → x.Uncut t d i j → (∃ k, (x.state j).core t = some k ∧ I k) ∨
    ∃ n k, i ≤ n ∧ n ≤ j ∧ (x.state n).core t = some k ∧ Q (x.called t i n) k
  comes : live → (∀ j, x.Uncut t d i j) →
    ∃ n k, i ≤ n ∧ (x.state n).core t = some k ∧ Q (x.called t i n) k

variable {x : Execution w} {t : TaskId} {live : Prop} {r d i j m n : Nat} {k : Core A}
  {I I' : Core A → Prop} {Q Q' : List Callee → Core A → Prop} {calls : Calls A} {passes : List Pass}

namespace Arrives

theorem here (hk : (x.state i).core t = some k) (hQ : Q [] k) : x.Arrives t live d i I Q where
  followed j hj _ := .inr ⟨i, k, Nat.le_refl i, hj, hk, by rwa [called_self]⟩
  comes _ _ := ⟨i, k, Nat.le_refl i, hk, by rwa [called_self]⟩

theorem mono (h : x.Arrives t live d i I Q) (hI : ∀ k, I k → I' k) (hQ : ∀ cs k, Q cs k → Q' cs k) :
    x.Arrives t live d i I' Q' where
  followed j hj huncut := by
    rcases h.followed j hj huncut with ⟨k, hk, hway⟩ | ⟨n, k, hi, hn, hk, hthere⟩
    · exact .inl ⟨k, hk, hI k hway⟩
    · exact .inr ⟨n, k, hi, hn, hk, hQ _ k hthere⟩
  comes hlive huncut := by
    obtain ⟨n, k, hi, hk, hthere⟩ := h.comes hlive huncut
    exact ⟨n, k, hi, hk, hQ _ k hthere⟩

/-- One way after another. -/
theorem andThen (h : x.Arrives t live d i I Q) (hnext : ∀ n cs k, i ≤ n → (x.state n).core t = some k →
    Q cs k → x.Arrives t live d n I fun cs' k' => Q' (cs ++ cs') k') : x.Arrives t live d i I Q' where
  followed j hj huncut := by
    rcases h.followed j hj huncut with hway | ⟨n, k, hi, hn, hk, hthere⟩
    · exact .inl hway
    · rcases (hnext n _ k hi hk hthere).followed j hn (huncut.tail hi) with hway | ⟨n', k', hn', hj', hk', hthere'⟩
      · exact .inl hway
      · exact .inr ⟨n', k', Nat.le_trans hi hn', hj', hk', by rwa [called_trans hi hn']⟩
  comes hlive huncut := by
    obtain ⟨n, k, hi, hk, hthere⟩ := h.comes hlive huncut
    obtain ⟨n', k', hn', hk', hthere'⟩ := (hnext n _ k hi hk hthere).comes hlive fun j => (huncut j).tail hi
    exact ⟨n', k', Nat.le_trans hi hn', hk', by rwa [called_trans hi hn']⟩

/-- One step that is no call. -/
theorem step {p : Program A Outcome} (hlive : live → x.Attends t)
    (hk : (x.state i).core t = some ⟨.running p, calls, passes⟩) (hI : I ⟨.running p, calls, passes⟩)
    (hcall : ∀ callee limit next, p ≠ .perform (.call callee limit) next)
    (hnext : ∀ n k', x.Acts t d ⟨.running p, calls, passes⟩ i n k' → Q [] k') :
    x.Arrives t live d i I Q := by
  have hthere : ∀ n k', x.Acts t d ⟨.running p, calls, passes⟩ i n k' → Q (x.called t i (n + 1)) k' := by
    intro n k' hacts
    rw [hacts.called_nothing fun callee limit next heq => hcall callee limit next (Doing.running.inj heq)]
    exact hnext n k' hacts
  refine ⟨fun j hj huncut => ?_, fun h huncut => ?_⟩
  · rcases first_turn huncut hj hk with hrests | ⟨n, k', hn, hacts⟩
    · exact .inl ⟨_, hrests.last hj, hI⟩
    · exact .inr ⟨n + 1, k', Nat.le_succ_of_le hacts.le, hn, hacts.after, hthere n k' hacts⟩
  · obtain ⟨n, k', hacts⟩ := (hlive h).acts huncut hk
    exact ⟨n + 1, k', Nat.le_succ_of_le hacts.le, hacts.after, hthere n k' hacts⟩

/-! ### Waiting -/

/-- A task that waits for the lock of a bus begins the delivery, with the listeners of the moment. -/
theorem begins {b : BusId} {next : List ListenerId → Program A Outcome} (hlive : live → x.Attends t ∧ x.Admits t b)
    (hk : (x.state i).core t = some ⟨.waiting (.beginning b next), calls, passes⟩)
    (hI : I ⟨.waiting (.beginning b next), calls, passes⟩) :
    x.Arrives t live calls.length i I fun cs k => cs = [] ∧ ∃ m, i ≤ m ∧ x.Begins b t calls passes m ∧
      k = ⟨.running (next (x.listeners b m)), calls, ⟨b, x.listeners b m⟩ :: passes⟩ := by
  have hthere : ∀ n k', x.Acts t calls.length ⟨.waiting (.beginning b next), calls, passes⟩ i n k' →
      x.called t i (n + 1) = [] ∧ ∃ m, i ≤ m ∧ x.Begins b t calls passes m ∧
        k' = ⟨.running (next (x.listeners b m)), calls, ⟨b, x.listeners b m⟩ :: passes⟩ := by
    intro n k' hacts
    obtain ⟨bs, hbs, hwaiting, rfl⟩ := Step.of_beginning hacts.goesOn hacts.depth hacts.step
    have hset : x.listeners b n = bs.listeners := State.listenersOf_eq hbs
    refine ⟨hacts.called_nothing nofun, n, hacts.le, ?_, by rw [hset]⟩
    exact begins_of_beginning hacts.turn hacts.before hbs hwaiting hacts.after
  refine ⟨fun j hj huncut => ?_, fun h huncut => ?_⟩
  · rcases first_turn huncut hj hk with hrests | ⟨n, k', hn, hacts⟩
    · exact .inl ⟨_, hrests.last hj, hI⟩
    · exact .inr ⟨n + 1, k', Nat.le_succ_of_le hacts.le, hn, hacts.after, hthere n k' hacts⟩
  · obtain ⟨m, him, hready⟩ := (hlive h).2 i _ _ _ hk
    obtain ⟨m', hmm', hturn⟩ := (hlive h).1.served m hready
    obtain ⟨n, k', hacts⟩ := acts_of_turn (huncut (m' + 1)) (Nat.le_trans him hmm') hk hturn
    exact ⟨n + 1, k', Nat.le_succ_of_le hacts.le, hacts.after, hthere n k' hacts⟩

end Arrives

/-- A task waits for something that has nothing to do with buses, and will go on with one of some
programs. -/
def Idles {op : Op A} (next : op.Answer → Program A Outcome) (t : TaskId) (doing : Doing A) : Prop :=
  ∃ wait, doing = .waiting wait ∧ wait.claim? t = none ∧ ∀ p, wait.MayGoOn p → ∃ a, p = next a

end Execution

section Aside

variable {t : TaskId} {g g' : Buses} {k' : Core A} {calls : Calls A} {passes : List Pass} {op : Op A}
  {next : op.Answer → Program A Outcome} {doing : Doing A}

/-- After something that has nothing to do with calls and buses a task goes on with the answer, or waits
for it. -/
theorem Step.of_aside (hop : op.IsAside) (hended : k'.doing ≠ .ended) (hdepth : calls.length ≤ k'.calls.length)
    (h : Step w t g ⟨.running (.perform op next), calls, passes⟩ g' k') :
    (∃ doing, Execution.Idles next t doing ∧ k' = ⟨doing, calls, passes⟩) ∨
      ∃ a, k' = ⟨.running (next a), calls, passes⟩ := by
  have hnot : ¬ op.IsApart → ∃ r, op = .record r := fun hnot => hop.resolve_left hnot
  cases h with
  | @goes _ doing' _ _ _ _ hclaim hended' _ hnext =>
    cases doing' with
    | running p =>
      obtain ⟨a, rfl⟩ := hnext p rfl
      exact .inr ⟨a, rfl⟩
    | waiting wait => exact .inl ⟨_, ⟨wait, rfl, hclaim, hnext⟩, rfl⟩
    | ended => exact absurd rfl hended'
  | records => exact .inr ⟨(), rfl⟩
  | leaves => exact absurd hdepth not_shorter
  | finishes => exact absurd rfl hended
  | _ =>
    obtain ⟨r, hr⟩ := hnot id
    cases hr

/-- A task that waits for such an answer goes on with it, or waits still. -/
theorem Step.of_idles (hidles : Execution.Idles next t doing) (hended : k'.doing ≠ .ended)
    (hdepth : calls.length ≤ k'.calls.length) (h : Step w t g ⟨doing, calls, passes⟩ g' k') :
    (∃ doing, Execution.Idles next t doing ∧ k' = ⟨doing, calls, passes⟩) ∨
      ∃ a, k' = ⟨.running (next a), calls, passes⟩ := by
  obtain ⟨wait, rfl, hclaim, hgoesOn⟩ := hidles
  cases h with
  | @goes _ doing' _ _ _ _ hclaim' hended' _ hnext =>
    cases doing' with
    | running p =>
      obtain ⟨a, rfl⟩ := hgoesOn p (hnext p rfl)
      exact .inr ⟨a, rfl⟩
    | waiting wait' => exact .inl ⟨_, ⟨wait', rfl, hclaim', fun p hp => hgoesOn p (hnext p hp)⟩, rfl⟩
    | ended => exact absurd rfl hended'
  | leaves => exact absurd hdepth not_shorter
  | finishes => exact absurd rfl hended
  | _ => cases hclaim

end Aside

namespace Execution

variable {x : Execution w} {t : TaskId} {live : Prop} {r i j m n : Nat} {k : Core A} {I : Core A → Prop}
  {calls : Calls A} {passes : List Pass}

/-- How far such a wait has come. -/
theorem idles_followed {op : Op A} {next : op.Answer → Program A Outcome} {doing : Doing A}
    (hidles : Idles next t doing) (hij : i ≤ j) (huncut : x.Uncut t calls.length i j)
    (hk : (x.state i).core t = some ⟨doing, calls, passes⟩) :
    (∃ doing, Idles next t doing ∧ (x.state j).core t = some ⟨doing, calls, passes⟩ ∧ x.called t i j = []) ∨
      ∃ n a, i ≤ n ∧ n ≤ j ∧ x.called t i n = [] ∧
        (x.state n).core t = some ⟨.running (next a), calls, passes⟩ := by
  induction hij with
  | refl => exact .inl ⟨doing, hidles, hk, called_self i⟩
  | @step j hij ih =>
    rcases ih (huncut.mono (Nat.le_refl i) (Nat.le_succ j)) with
      ⟨doing', hidles', hk', hnobody⟩ | ⟨n, a, hi, hn, hnobody, hback⟩
    · have hcalls : x.called t i (j + 1) = [] := by
        obtain ⟨wait, rfl, -⟩ := hidles'
        rw [called_trans hij (Nat.le_succ j), hnobody, called_succ, callBy_of_doing hk' nofun]
        rfl
      rcases first_turn (huncut.tail hij) (Nat.le_succ j) hk' with hrests | ⟨n, k', hn, hacts⟩
      · exact .inl ⟨doing', hidles', hrests.last (Nat.le_succ j), hcalls⟩
      · obtain rfl := Nat.le_antisymm (Nat.le_of_lt_succ hn) hacts.le
        rcases Step.of_idles hidles' hacts.goesOn hacts.depth hacts.step with ⟨doing'', hidles'', rfl⟩ | ⟨a, rfl⟩
        · exact .inl ⟨doing'', hidles'', hacts.after, hcalls⟩
        · exact .inr ⟨n + 1, a, Nat.le_succ_of_le hij, Nat.le_refl _, hcalls, hacts.after⟩
    · exact .inr ⟨n, a, hi, Nat.le_succ_of_le hn, hnobody, hback⟩

/-- Such a wait comes to its end. -/
theorem idles_end {op : Op A} {next : op.Answer → Program A Outcome} {doing : Doing A}
    (hidles : Idles next t doing) (hresumes : x.Resumes t r) (hr : r < calls.length)
    (huncut : ∀ j, x.Uncut t calls.length i j)
    (hk : (x.state i).core t = some ⟨doing, calls, passes⟩) :
    ∃ n a, i ≤ n ∧ x.called t i n = [] ∧ (x.state n).core t = some ⟨.running (next a), calls, passes⟩ := by
  obtain ⟨wait, rfl, hclaim, -⟩ := id hidles
  obtain ⟨m, him, hturn⟩ := hresumes i wait calls passes hr hk hclaim
  rcases idles_followed hidles (Nat.le_succ_of_le him) (huncut (m + 1)) hk with
    ⟨doing', hidles', hafter, -⟩ | ⟨n, a, hi, -, hback⟩
  · -- Whoever still waits after a step is about to replace listeners, which this task is not.
    rcases idles_followed hidles him (huncut m) hk with ⟨_, ⟨wait₀, rfl, -⟩, hbefore, -⟩ | ⟨n, a, hi, -, hback⟩
    · obtain ⟨wait', rfl, hclaim', -⟩ := hidles'
      obtain ⟨b, e, copy, next', rfl⟩ := State.waits_of_advance (advance_of_turn hturn) hbefore hafter
      cases hclaim'
    · exact ⟨n, a, hi, hback⟩
  · exact ⟨n, a, hi, hback⟩

namespace Arrives

/-- Something that has nothing to do with calls and buses is answered. -/
theorem aside {op : Op A} {next : op.Answer → Program A Outcome} (hop : op.IsAside)
    (hlive : live → x.Attends t ∧ x.Resumes t r) (hr : r < calls.length)
    (hk : (x.state i).core t = some ⟨.running (.perform op next), calls, passes⟩) :
    x.Arrives t live calls.length i (fun k => ¬ k.AtEnd calls.length) fun cs k =>
      cs = [] ∧ ∃ a, k = ⟨.running (next a), calls, passes⟩ := by
  have hcall : ∀ callee limit nxt, Program.perform op next ≠ .perform (.call callee limit) nxt := by
    intro callee limit nxt heq
    obtain ⟨rfl, -⟩ := Program.perform.inj heq
    rcases hop with hapart | ⟨_, heq⟩
    · exact hapart
    · cases heq
  have hrunning : ¬ Core.AtEnd calls.length (⟨.running (.perform op next), calls, passes⟩ : Core A) := by
    rintro ⟨p, o, hdoing, hends, -⟩
    cases hdoing
    cases hends
    rcases hop with hapart | ⟨_, heq⟩
    · exact hapart
    · cases heq
  have hwaiting : ∀ doing, Idles next t doing → ¬ Core.AtEnd calls.length (⟨doing, calls, passes⟩ : Core A) := by
    rintro _ ⟨wait, rfl, -⟩ ⟨p, o, hdoing, -⟩
    cases hdoing
  -- The task asks, and then waits for the answer, unless it has it at once.
  refine (step (Q := fun cs k => cs = [] ∧ ((∃ doing, Idles next t doing ∧ k = ⟨doing, calls, passes⟩) ∨
    ∃ a, k = ⟨.running (next a), calls, passes⟩)) (fun h => (hlive h).1) hk hrunning hcall
    fun n k' hacts => ⟨rfl, Step.of_aside hop hacts.goesOn hacts.depth hacts.step⟩).andThen ?_
  rintro n _ k - hk' ⟨rfl, ⟨doing, hidles, rfl⟩ | ⟨a, rfl⟩⟩
  · refine ⟨fun j hj huncut => ?_, fun h huncut => ?_⟩
    · rcases idles_followed hidles hj huncut hk' with ⟨doing', hidles', hafter, -⟩ | ⟨m, a, hn, hm, hnobody, hback⟩
      · exact .inl ⟨_, hafter, hwaiting doing' hidles'⟩
      · exact .inr ⟨m, _, hn, hm, hback, hnobody, a, rfl⟩
    · obtain ⟨m, a, hn, hnobody, hback⟩ := idles_end hidles (hlive h).2 hr huncut hk'
      exact ⟨m, _, hn, hback, hnobody, a, rfl⟩
  · exact here hk' ⟨rfl, a, rfl⟩

end Arrives

/-! ### Calls -/

section End

variable {p : Program A Outcome} {o : Outcome} {f : Nat × (Outcome → Program A Outcome)}

/-- Whoever has come to the end of a body leaves the call with its next step. -/
theorem not_acts_at_end {k' : Core A} (hends : p.EndsWith o) :
    ¬ x.Acts t (calls.length + 1) ⟨.running p, f :: calls, passes⟩ i n k' := by
  intro hacts
  have hleft : k'.calls = calls := by
    have htimed := timed_of_turn hacts.turn hacts.before hacts.after
    cases hends with
    | done o => exact htimed.of_done hacts.goesOn
    | panics payload next => exact htimed.of_panic hacts.goesOn
  have hdepth := hacts.depth
  rw [hleft] at hdepth
  exact Nat.not_succ_le_self _ hdepth

theorem rests_at_end (hends : p.EndsWith o) (hij : i ≤ j) (huncut : x.Uncut t (calls.length + 1) i j)
    (hk : (x.state i).core t = some ⟨.running p, f :: calls, passes⟩) :
    x.Rests t ⟨.running p, f :: calls, passes⟩ i j := by
  rcases first_turn huncut hij hk with hrests | ⟨n, k', -, hacts⟩
  · exact hrests
  · exact absurd hacts (not_acts_at_end hends)

end End

/-- A call is left because the body has come to its end, or because it has outlasted its limit. -/
theorem Explains.cases {callee : Callee} {limit : Option Duration} {fate : Fate}
    (h : x.Explains t calls callee limit m n fate) (hk : (x.state n).core t = some k) :
    (∃ p, k.doing = .running p ∧ p.EndsWith fate.outcome ∧ k.calls.length = calls.length + 1) ∨
      ∃ d, fate = .outlasted d ∧ x.Outlasts t calls limit d m n := by
  cases fate with
  | returned =>
    obtain ⟨tr, frame, passes, l, -, -, -, hdone⟩ := h
    obtain rfl := Option.some.inj (hk.symm.trans hdone)
    exact .inl ⟨_, rfl, .done _, rfl⟩
  | reported e =>
    obtain ⟨tr, frame, passes, l, -, -, -, hdone⟩ := h
    obtain rfl := Option.some.inj (hk.symm.trans hdone)
    exact .inl ⟨_, rfl, .done _, rfl⟩
  | panicked payload =>
    obtain ⟨tr, frame, passes, next, l, -, -, -, hpanic⟩ := h
    obtain rfl := Option.some.inj (hk.symm.trans hpanic)
    exact .inl ⟨_, rfl, .panics payload next, rfl⟩
  | outlasted d => exact .inr ⟨d, rfl, h⟩

/-- What a body without a limit is left with is what it has come to. -/
theorem Explains.atEnd {callee : Callee} {fate : Fate} (h : x.Explains t calls callee none m n fate)
    (hk : (x.state n).core t = some k) :
    ∃ p, k.doing = .running p ∧ p.EndsWith fate.outcome ∧ k.calls.length = calls.length + 1 := by
  rcases h.cases hk with hend | ⟨d, -, hlimit, -⟩
  · exact hend
  · cases hlimit

/-- Where a body comes to, from within a call: to its end, with `R` of those that it has called and of the
outcome. -/
abbrev Concludes (x : Execution w) (t : TaskId) (live : Prop) (f : Nat × (Outcome → Program A Outcome))
    (calls : Calls A) (passes : List Pass) (i : Nat) (R : List Callee → Outcome → Prop) : Prop :=
  x.Arrives t live (calls.length + 1) i (fun k => ¬ k.AtEnd (calls.length + 1)) fun cs k =>
    ∃ p o, p.EndsWith o ∧ R cs o ∧ k = ⟨.running p, f :: calls, passes⟩

section Call

variable {callee : Callee} {nxt : Outcome → Program A Outcome} {R : List Callee → Outcome → Prop}

/-- A call without a limit that has been answered: the body has come to its end, and the caller goes on with
the outcome. -/
theorem Concludes.left (hbody : x.Concludes t live (passes.length, nxt) calls passes (m + 1) R)
    (hkeeps : x.KeepsLimits t) {o : Outcome} {passes' : List Pass}
    (huncut : x.Uncut t calls.length m (n + 1)) (hawaits : x.Awaits t calls (.call callee none) nxt m n)
    (hanswers : x.Answers t calls ⟨.call callee none, o⟩ m n)
    (hafter : (x.state (n + 1)).core t = some ⟨.running (nxt o), calls, passes'⟩) :
    m < n ∧ ∃ o, R (x.called t (m + 1) (n + 1)) o ∧
      (x.state (n + 1)).core t = some ⟨.running (nxt o), calls, passes⟩ := by
  obtain ⟨hmn, fate, hexplains, hback⟩ := hawaits.over hanswers hkeeps huncut hafter
  have hinside := hawaits.uncut (huncut.mono (Nat.le_refl m) (Nat.le_succ n))
  obtain ⟨k, hk, -⟩ := hinside n hmn (Nat.le_refl n)
  obtain ⟨p', hdoing, hends', hlevel⟩ := hexplains.atEnd hk
  rcases hbody.followed n hmn hinside with ⟨k', hk', hnot⟩ | ⟨l, k', hl, hln, hk', p, o', hends, hR, rfl⟩
  · obtain rfl := Option.some.inj (hk.symm.trans hk')
    exact absurd ⟨p', _, hdoing, hends', hlevel⟩ hnot
  · have hrests := rests_at_end hends hln (hinside.tail hl) hk'
    obtain rfl := Option.some.inj (hk.symm.trans (hrests.last hln))
    cases hdoing
    obtain rfl := hends.unique hends'
    -- The last step leaves the call, and calls nobody.
    have hlast : x.callBy t n = none := by
      refine callBy_of_doing hk fun callee limit next heq => ?_
      cases heq
      cases hends
    refine ⟨hmn, fate.outcome, ?_, ?_⟩
    · rwa [called_trans hl (Nat.le_succ_of_le hln), called_trans hln (Nat.le_succ n), hrests.called, called_succ,
        hlast, Option.toList_none, List.append_nil, List.append_nil]
    · have hhere : Inside nxt calls passes ⟨.running p', (passes.length, nxt) :: calls, passes⟩ :=
        ⟨⟨[], rfl, fun f hf => (nomatch hf)⟩, [], rfl⟩
      have hstep := step_of_turn hanswers.turn hk hback
      rcases hstep.inside hhere nofun (Nat.le_refl _) with ⟨⟨inner, hcalls, -⟩, -⟩ | ⟨o, heq⟩
      · have hlength := congrArg List.length hcalls
        rw [List.length_append, List.length_cons] at hlength
        dsimp only at hlength
        omega
      · obtain ⟨hrunning, -, hpasses⟩ := Core.mk.inj heq
        rw [hback, hpasses]

/-- **A call without a limit** comes to what its body comes to. -/
theorem Arrives.call (hkeeps : x.KeepsLimits t) (hlive : live → x.Attends t)
    (hk : (x.state i).core t = some ⟨.running (.perform (.call callee none) nxt), calls, passes⟩)
    (hI : I ⟨.running (.perform (.call callee none) nxt), calls, passes⟩)
    (hdeeper : ∀ k : Core A, calls.length < k.calls.length → I k)
    (hbody : ∀ m, (x.state m).core t
        = some ⟨.running (w.body callee), (passes.length, nxt) :: calls, passes⟩ →
      x.Concludes t live (passes.length, nxt) calls passes m R) :
    x.Arrives t live calls.length i I fun cs k => ∃ cs' o, R cs' o ∧ cs = callee :: cs' ∧
      k = ⟨.running (nxt o), calls, passes⟩ := by
  have hover : ∀ {m n k' o passes'}, x.Uncut t calls.length i (n + 1) →
      x.Acts t calls.length ⟨.running (.perform (.call callee none) nxt), calls, passes⟩ i m k' →
      x.Awaits t calls (.call callee none) nxt m n → x.Answers t calls ⟨.call callee none, o⟩ m n →
      (x.state (n + 1)).core t = some ⟨.running (nxt o), calls, passes'⟩ →
      ∃ k, i ≤ n + 1 ∧ (x.state (n + 1)).core t = some k ∧ ∃ cs' o, R cs' o ∧
        x.called t i (n + 1) = callee :: cs' ∧ k = ⟨.running (nxt o), calls, passes⟩ := by
    intro m n k' o passes' huncut hacts hawaits hanswers hafter
    obtain rfl := Step.of_call hacts.goesOn hacts.depth hacts.step
    obtain ⟨hmn, o, hR, hback⟩ := (hbody (m + 1) hacts.after).left hkeeps (huncut.tail hacts.le) hawaits
      hanswers hafter
    refine ⟨_, Nat.le_succ_of_le (Nat.le_trans hacts.le (Nat.le_of_lt hmn)), hback, _, o, hR, ?_, rfl⟩
    rw [called_trans (Nat.le_succ_of_le hacts.le) (Nat.le_succ_of_le hmn), hacts.called,
      callAt_of_call hacts.turn hacts.before]
    rfl
  refine ⟨fun j hj huncut => ?_, fun h huncut => ?_⟩
  · rcases first_turn huncut hj hk with hrests | ⟨m, k', hm, hacts⟩
    · exact .inl ⟨_, hrests.last hj, hI⟩
    rcases hacts.asked.followed (Nat.le_of_lt hm) (huncut.tail hacts.le) with
      hawaits | ⟨n, o, passes', hn, hawaits, hanswers, hafter⟩
    · obtain ⟨k, hk, -, hdepth⟩ := hawaits.uncut (huncut.tail hacts.le) j hm (Nat.le_refl j)
      exact .inl ⟨k, hk, hdeeper k hdepth⟩
    · obtain ⟨k, hi, hback⟩ := hover (huncut.mono (Nat.le_refl i) hn) hacts hawaits hanswers hafter
      exact .inr ⟨n + 1, k, hi, hn, hback⟩
  · obtain ⟨m, k', hacts⟩ := (hlive h).acts huncut hk
    obtain rfl := Step.of_call hacts.goesOn hacts.depth hacts.step
    have huncut' : ∀ n, x.Uncut t calls.length m n := fun n => (huncut n).tail hacts.le
    -- As long as the call is in progress the body goes on, and at its end the call is left.
    by_contra hnever
    have hforever : ∀ n, m ≤ n → x.Awaits t calls (.call callee none) nxt m n := by
      intro n hn
      rcases hacts.asked.followed hn (huncut' n) with hawaits | ⟨l, o, passes', -, hawaits, hanswers, hafter⟩
      · exact hawaits
      · obtain ⟨k, hi, hback⟩ := hover (huncut (l + 1)) hacts hawaits hanswers hafter
        exact absurd ⟨l + 1, k, hi, hback⟩ hnever
    have hinside := uncut_of_forever hforever huncut'
    obtain ⟨n, k, hn, hend, p, o, hends, -, rfl⟩ := (hbody (m + 1) hacts.after).comes h hinside
    obtain ⟨l, c, hleaves⟩ := (hlive h).acts (fun j => (hinside j).tail hn) hend
    exact not_acts_at_end hends hleaves

end Call

/-! ### Deliveries -/

section Deliver

variable {c : Family A} {cast : Cast} {b : BusId} {set ls : List ListenerId} {event : Event}
  {targets : Option TargetSet} {next : Delivery → Program A Outcome} {p : Program A Outcome} {dl : Delivery}

/-- The body of a listener comes to what the listener's behaviour leads to. -/
abbrev Reacts (x : Execution w) (t : TaskId) (live : Prop) (c : Family A) (cast : Cast)
    (set : List ListenerId) (calls : Calls A) (passes : List Pass) (event : Event) (l : ListenerId) : Prop :=
  ∀ nxt m, (x.state m).core t
      = some ⟨.running (w.body (.onEvent l event)), (passes.length, nxt) :: calls, passes⟩ →
    x.Concludes t live (passes.length, nxt) calls passes m fun cs o =>
      ∃ pubs, c.Performs cast set (c l event) pubs o ∧ cs = pubs.flatMap Publication.calls

/-- Where the publisher of an event comes to: it goes on with what is counted in the tree of the event, and the
calls in between are those of the tree. -/
def Publishes (c : Family A) (cast : Cast) (set : List ListenerId) (event : Event)
    (targets : Option TargetSet) (next : Delivery → Program A Outcome) (calls : Calls A) (passes : List Pass)
    (cs : List Callee) (k : Core A) : Prop :=
  ∃ T : Publication, T.event = event ∧ T.targets = targets ∧ c.Stems cast set T ∧ cs = T.calls ∧
    k = ⟨.running (next (T.delivery cast)), calls, passes⟩

namespace Arrives

/-- What has become of a call is counted, and a failure is recorded before. -/
theorem counted (hlive : live → x.Attends t) {l : ListenerId} {rest : List ListenerId}
    {nxt : Outcome → Program A Outcome} {o : Outcome} (pubs : List Publication)
    (hok : nxt (.ok ()) = (Bus.deliverTo cast b event rest dl.handled).bind next)
    (herror : ∀ e, nxt (.error e) = .perform (.record (Bus.failureRecord cast event l e))
      fun _ => (Bus.deliverTo cast b event rest (dl.failed (cast.name l) e)).bind next)
    (hk : (x.state i).core t = some ⟨.running (nxt o), calls, passes⟩) :
    x.Arrives t live calls.length i (Core.IsPublishing b event calls.length) fun cs k => cs = [] ∧
      k = ⟨.running ((Bus.deliverTo cast b event rest (Reaction.count cast dl (.mk l pubs o))).bind next),
        calls, passes⟩ := by
  cases o with
  | ok =>
    rw [hok] at hk
    exact here hk ⟨rfl, rfl⟩
  | error e =>
    rw [herror] at hk
    exact step hlive hk (.inr ⟨rfl, trivial⟩) nofun fun n k' hacts =>
      ⟨rfl, Step.of_record hacts.goesOn hacts.depth hacts.step⟩

/-- **A delivery calls the listeners one after another**, each with all that comes of it, and counts what has
become of the calls. -/
theorem deliver (hkeeps : x.KeepsLimits t) (hlive : live → x.Attends t)
    (hlimit : cast.listenerLimit b = none) (hbody : ∀ l ∈ ls, x.Reacts t live c cast set calls passes event l)
    (hk : (x.state i).core t
      = some ⟨.running ((Bus.deliverTo cast b event ls dl).bind next), calls, passes⟩) :
    x.Arrives t live calls.length i (Core.IsPublishing b event calls.length) fun cs k =>
      ∃ rs : List Reaction, rs.map Reaction.listener = ls ∧
        (∀ r ∈ rs, c.Performs cast set (c r.listener event) r.publications r.outcome) ∧
        cs = rs.flatMap (Reaction.calls event) ∧
        k = ⟨.running (next (rs.foldl (Reaction.count cast) dl)), calls, passes⟩ := by
  induction ls generalizing i dl with
  | nil => exact here hk ⟨[], rfl, fun _ hr => (nomatch hr), rfl, rfl⟩
  | cons l rest ih =>
    obtain ⟨nxt, hcall, hok, herror⟩ := Bus.deliverTo_cons cast b event l rest dl next
    rw [hcall, hlimit] at hk
    refine (call hkeeps hlive hk (.inr ⟨rfl, rfl⟩) (fun k hdeeper => .inl hdeeper)
      (hbody l List.mem_cons_self nxt)).andThen ?_
    rintro n cs k - hk' ⟨cs, o, ⟨pubs, hperforms, rfl⟩, rfl, rfl⟩
    refine (counted hlive pubs hok herror hk').andThen ?_
    rintro n' cs' k - hk'' ⟨rfl, rfl⟩
    refine (ih (fun l' hl' => hbody l' (List.mem_cons_of_mem l hl')) hk'').mono (fun _ h => h) ?_
    rintro cs k ⟨rs, hlisteners, hreactions, rfl, rfl⟩
    refine ⟨.mk l pubs o :: rs, congrArg _ hlisteners, List.forall_mem_cons.2 ⟨hperforms, hreactions⟩, ?_, rfl⟩
    rw [List.flatMap_cons, Reaction.calls_eq, List.nil_append]
    rfl

/-- **Publishing within a delivery** on the bus hands the event on from the listeners of that delivery,
whomever its own event is meant for, and waits for nothing. -/
theorem within (hkeeps : x.KeepsLimits t) (hlive : live → x.Attends t)
    (hlimit : cast.listenerLimit b = none) (hp : Bus.Publishes cast b event targets p next)
    (hset : ⟨b, set⟩ ∈ passes)
    (hbody : ∀ l ∈ set.filter (Bus.isMeant cast targets), x.Reacts t live c cast set calls passes event l)
    (hk : (x.state i).core t = some ⟨.running p, calls, passes⟩) :
    x.Arrives t live calls.length i (Core.IsPublishing b event calls.length)
      (Publishes c cast set event targets next calls passes) := by
  obtain ⟨next', rfl, -, hsome⟩ := hp.program
  -- Of all deliveries on the bus around the task the listeners are those of the bus.
  have hfind : (passes.find? fun q => q.bus = b).map Pass.set = some set := by
    have hcurrent := (x.sound i).current t _ hk
    cases hfound : passes.find? fun q => q.bus = b with
    | none => exact absurd (decide_eq_true rfl) (List.find?_eq_none.1 hfound _ hset)
    | some q =>
      have hbus : q.bus = b := by simpa using List.find?_some hfound
      have hcommon := hcurrent.passes q (List.mem_of_find?_eq_some hfound)
      rw [hbus, hcurrent.passes _ hset] at hcommon
      exact hcommon.symm
  refine (step (Q := fun cs k => cs = [] ∧ k = ⟨.running (next' (some set)), calls, passes⟩) hlive hk
    (.inr ⟨rfl, rfl⟩) nofun fun n k' hacts => ⟨rfl, ?_⟩).andThen ?_
  · rw [← hfind]
    exact Step.of_enclosing hacts.goesOn hacts.depth hacts.step
  rintro n cs k - hk' ⟨rfl, rfl⟩
  rw [hsome] at hk'
  refine (deliver hkeeps hlive hlimit hbody hk').mono (fun _ h => h) ?_
  rintro cs k ⟨rs, hlisteners, hreactions, rfl, rfl⟩
  exact ⟨.mk event targets rs, rfl, rfl, ⟨hlisteners, hreactions⟩, (Publication.calls_eq (.mk _ _ _)).symm, rfl⟩

/-- What comes after a delivery of its own: it is ended, perhaps a record is made, and the publisher goes on. -/
theorem ended (hlive : live → x.Attends t) {q : Pass} (hdepth : depthOf calls ≤ passes.length)
    (hk : (x.state i).core t = some ⟨.running (.perform .endDelivery fun _ =>
      (Bus.noteUnmatched event targets dl).bind fun _ => p), calls, q :: passes⟩) :
    x.Arrives t live calls.length i (Core.IsPublishing b event calls.length) fun cs k =>
      cs = [] ∧ k = ⟨.running p, calls, passes⟩ := by
  refine (step (Q := fun cs k => cs = [] ∧ k = ⟨.running ((Bus.noteUnmatched event targets dl).bind fun _ => p),
    calls, passes⟩) hlive hk (.inr ⟨rfl, trivial⟩) nofun fun n k' hacts =>
    ⟨rfl, Step.of_endDelivery hacts.goesOn hacts.depth hdepth hacts.step⟩).andThen ?_
  rintro n cs k - hk' ⟨rfl, rfl⟩
  rcases Bus.noteUnmatched_bind event targets dl p with hnote | ⟨r, hnote⟩
  · rw [hnote] at hk'
    exact here hk' ⟨rfl, rfl⟩
  · rw [hnote] at hk'
    exact step hlive hk' (.inr ⟨rfl, trivial⟩) nofun fun n k' hacts =>
      ⟨rfl, Step.of_record hacts.goesOn hacts.depth hacts.step⟩

end Arrives

/-- **The body of a listener** does what its behaviour says, by induction on all that comes of it. -/
theorem body_arrives (hkeeps : x.KeepsLimits t) (hlive : live → x.Attends t ∧ x.Resumes t r)
    (hlimit : cast.listenerLimit b = none) (hset : ⟨b, set⟩ ∈ passes)
    (hw : ∀ l ∈ set, ∀ event, w.body (.onEvent l event) = (c l event).program cast b) {v : Behaviour A}
    (hends : c.Ends cast set v) {f : Nat × (Outcome → Program A Outcome)} (hr : r ≤ calls.length)
    (hk : (x.state i).core t = some ⟨.running (v.program cast b), f :: calls, passes⟩) :
    x.Concludes t live f calls passes i fun cs o =>
      ∃ pubs, c.Performs cast set v pubs o ∧ cs = pubs.flatMap Publication.calls := by
  induction hends generalizing i f calls with
  | returns o => exact .here hk ⟨_, o, .done o, ⟨[], .returns o, rfl⟩, rfl⟩
  | panics payload => exact .here hk ⟨_, _, .panics payload _, ⟨[], .panics payload, rfl⟩, rfl⟩
  | @aside op isAside next _ ih =>
    have hinside : r < (f :: calls).length := Nat.lt_succ_of_le hr
    refine (Arrives.aside isAside hlive hinside hk).andThen ?_
    rintro n cs k - hk' ⟨rfl, a, rfl⟩
    refine (ih a hr hk').mono (fun _ h => h) ?_
    rintro cs k ⟨p, o, hend, ⟨pubs, hperforms, rfl⟩, rfl⟩
    exact ⟨p, o, hend, ⟨pubs, .aside a hperforms, rfl⟩, rfl⟩
  | @publishes event targets next hlisteners _ ihbody ihnext =>
    have hreacts : ∀ l ∈ set.filter (Bus.isMeant cast targets),
        x.Reacts t live c cast set (f :: calls) passes event l := by
      intro l hl nxt m hm
      rw [hw l (List.mem_of_mem_filter hl) event] at hm
      exact ihbody l hl (Nat.le_succ_of_le hr) hm
    have hpublishes := Arrives.within hkeeps (fun h => (hlive h).1) hlimit (.emit _) hset hreacts hk
    refine (hpublishes.mono (fun _ h => h.not_atEnd) fun _ _ h => h).andThen ?_
    rintro n cs k - hk' ⟨T, rfl, rfl, hstems, rfl, rfl⟩
    refine (ihnext T hstems rfl rfl hr hk').mono (fun _ h => h) ?_
    rintro cs k ⟨p, o, hend, ⟨pubs, hperforms, rfl⟩, rfl⟩
    refine ⟨p, o, hend, ⟨T :: pubs, ?_, rfl⟩, rfl⟩
    cases T
    exact .publishes hstems.listeners hstems.performs hperforms

/-- **Publishing outside of any delivery** on the bus waits for the lock, and hands the event on from the
listeners of the moment at which it is granted. -/
theorem Arrives.outside (hkeeps : x.KeepsLimits t) (hlive : live → x.Attends t ∧ x.Admits t b)
    (hlimit : cast.listenerLimit b = none) (hp : Bus.Publishes cast b event targets p next)
    (houtside : ∀ q ∈ passes, q.bus ≠ b)
    (hbody : ∀ m, x.Begins b t calls passes m →
      ∀ l ∈ (x.listeners b m).filter (Bus.isMeant cast targets),
        x.Reacts t live c cast (x.listeners b m) calls (⟨b, x.listeners b m⟩ :: passes) event l)
    (hk : (x.state i).core t = some ⟨.running p, calls, passes⟩) :
    x.Arrives t live calls.length i (Core.IsPublishing b event calls.length) fun cs k =>
      ∃ m, i ≤ m ∧ x.Begins b t calls passes m ∧
        Publishes c cast (x.listeners b m) event targets next calls passes cs k := by
  obtain ⟨next', rfl, hnone, -⟩ := hp.program
  have hfind : (passes.find? fun q => q.bus = b) = none :=
    List.find?_eq_none.2 fun q hq heq => houtside q hq (of_decide_eq_true heq)
  have hattends : live → x.Attends t := fun h => (hlive h).1
  have hdepth : depthOf calls ≤ passes.length := ((x.sound i).neat t _ hk).depthOf_le
  -- It looks for a delivery around it and finds none.
  refine (step (Q := fun cs k => cs = [] ∧ k = ⟨.running (next' none), calls, passes⟩) hattends hk
    (.inr ⟨rfl, rfl⟩) nofun fun n k' hacts => ⟨rfl, ?_⟩).andThen ?_
  · have hnext := Step.of_enclosing hacts.goesOn hacts.depth hacts.step
    rwa [hfind, Option.map_none] at hnext
  rintro n₁ _ _ hi₁ hk₁ ⟨rfl, rfl⟩
  rw [hnone] at hk₁
  -- It asks for the lock, waits for it, and begins the delivery.
  refine (step (Q := fun cs k => cs = [] ∧ k = ⟨.waiting (.beginning b
    (Bus.deliverThen cast b event targets next)), calls, passes⟩) hattends hk₁ (.inr ⟨rfl, rfl⟩) nofun
    fun n k' hacts => ⟨rfl, Step.of_beginDelivery hacts.goesOn hacts.depth hacts.step⟩).andThen ?_
  rintro n₂ _ _ hi₂ hk₂ ⟨rfl, rfl⟩
  refine (begins hlive hk₂ (.inr ⟨rfl, rfl⟩)).andThen ?_
  rintro n₃ _ _ - hk₃ ⟨rfl, m, hm, hbegins, rfl⟩
  -- It delivers the event, and ends the delivery.
  refine (deliver hkeeps hattends hlimit (hbody m hbegins) hk₃).andThen ?_
  rintro n₄ _ _ - hk₄ ⟨rs, hlisteners, hreactions, rfl, rfl⟩
  refine (ended hattends hdepth hk₄).mono (fun _ h => h) ?_
  rintro _ _ ⟨rfl, rfl⟩
  refine ⟨m, Nat.le_trans hi₁ (Nat.le_trans hi₂ hm), hbegins, .mk event targets rs, rfl, rfl,
    ⟨hlisteners, hreactions⟩, ?_, rfl⟩
  rw [Publication.calls_eq, List.append_nil]
  rfl

end Deliver

/-! ### Given moves -/

section Directed

variable {buses : Nat} {p : Program A Outcome} {memory : A.Memory} {moves : List Move} {t : TaskId} {wait : Wait A}
  {passes : List Pass}

/-- With given moves nobody is kept waiting who waits in the end outside of any call, -/
theorem directed_resumes
    (hclock : ((Execution.directed w buses p memory moves).state (moves.length + 1)).tick = none)
    (hturn : (Execution.directed w buses p memory moves).turn moves.length = some t)
    (hrests : ((Execution.directed w buses p memory moves).state (moves.length + 1)).core t
      = some ⟨.waiting wait, [], passes⟩) (d : Nat) :
    (Execution.directed w buses p memory moves).Resumes t d := by
  intro n wait' calls passes' hdeep hk _
  rcases Nat.lt_or_ge moves.length n with hn | hn
  · rw [directed_rest hclock hn, hrests] at hk
    cases hk
    exact absurd hdeep (Nat.not_lt_zero d)
  · exact ⟨_, hn, hturn⟩

/-- and nobody for a lock who waits for none in the end. -/
theorem directed_admits
    (hclock : ((Execution.directed w buses p memory moves).state (moves.length + 1)).tick = none)
    (hturn : (Execution.directed w buses p memory moves).turn moves.length = some t) (b : BusId)
    (hrests : ∀ next calls passes, ((Execution.directed w buses p memory moves).state (moves.length + 1)).core t
      ≠ some ⟨.waiting (.beginning b next), calls, passes⟩) :
    (Execution.directed w buses p memory moves).Admits t b := by
  intro n next calls passes hk
  rcases Nat.lt_or_ge moves.length n with hn | hn
  · rw [directed_rest hclock hn] at hk
    exact absurd hk (hrests next calls passes)
  · exact ⟨_, hn, Option.isSome_iff_exists.2 ⟨_, advance_of_turn hturn⟩⟩

end Directed

end Execution

end Machine

/-! ### The main result -/

/-- The given listeners do on a bus what a family says. -/
def World.Behaves (w : World A) (cast : Cast) (b : BusId) (c : Family A) (set : List ListenerId) : Prop :=
  ∀ l ∈ set, ∀ event, w.body (.onEvent l event) = (c l event).program cast b

/-- **Nested delivery is a plain recursion** on a bus without a limit, for every family of behaviours. -/
theorem nested_delivery_is_recursive {w : World A} (x : Execution w) {t : TaskId} {b : BusId} {cast : Cast}
    {c : Family A} (hkeeps : x.KeepsLimits t) (hlimit : cast.listenerLimit b = none) :
    -- Whoever publishes an event within a delivery on the bus comes to where all calls of its tree have been made
    -- in pre-order, and no others, and is told what is counted in the tree; and it waits for no lock.
    (∀ set event targets p next calls passes i, Bus.Publishes cast b event targets p next → ⟨b, set⟩ ∈ passes →
      w.Behaves cast b c set → c.IsFinite cast set event targets →
      (x.state i).core t = some ⟨.running p, calls, passes⟩ →
      x.Arrives t (x.Attends t ∧ x.Resumes t calls.length) calls.length i
        (Core.IsPublishing b event calls.length)
        (Execution.Publishes c cast set event targets next calls passes)) ∧
    -- So does whoever publishes one outside of any delivery on the bus, with the listeners of the moment at which
    -- it is let in.
    (∀ event targets p next calls passes i, Bus.Publishes cast b event targets p next →
      (∀ q ∈ passes, q.bus ≠ b) → (∀ m, x.Begins b t calls passes m → w.Behaves cast b c (x.listeners b m) ∧
        c.IsFinite cast (x.listeners b m) event targets) →
      (x.state i).core t = some ⟨.running p, calls, passes⟩ →
      x.Arrives t ((x.Attends t ∧ x.Resumes t calls.length) ∧ x.Admits t b) calls.length i
        (Core.IsPublishing b event calls.length) fun cs k => ∃ m, i ≤ m ∧ x.Begins b t calls passes m ∧
          Execution.Publishes c cast (x.listeners b m) event targets next calls passes cs k) ∧
    -- In a tree the event is handed to all listeners that it is meant for; each of them is called, then all of the
    -- trees of its own events follow, and then the next listener.  These trees come from the same listeners,
    -- whomever the event around them is meant for.
    (∀ set T, c.Stems cast set T →
      T.reactions.map Reaction.listener = set.filter (Bus.isMeant cast T.targets) ∧
      T.calls = T.reactions.flatMap (fun r =>
        .onEvent r.listener T.event :: r.publications.flatMap Publication.calls) ∧
      ∀ r ∈ T.reactions, ∀ T' ∈ r.publications, c.Stems cast set T' ∧
        (T'.targets = none → T'.reactions.map Reaction.listener = set)) ∧
    -- Where nothing is done but publish, the recursion comes to an end, and its tree is the only one.
    (∀ set event targets, (∀ l event, (c l event).IsPlain) → c.IsFinite cast set event targets →
      ∃ depth T, c.publication cast set depth event targets = some T) ∧
    (∀ set depth event targets T, c.publication cast set depth event targets = some T →
      c.Becomes cast set event targets T ∧ ∀ next calls passes cs k,
        Execution.Publishes c cast set event targets next calls passes cs k →
          cs = T.calls ∧ k = ⟨.running (next (T.delivery cast)), calls, passes⟩) := by
  refine ⟨?_, ?_, fun set T hT => ⟨hT.listeners, ?_, fun r hr T' hT' => ?_⟩,
    fun set event targets hplain hfinite => hfinite.publication hplain, ?_⟩
  · intro set event targets p next calls passes i hp hset hw hfinite hk
    refine .within hkeeps And.left hlimit hp hset (fun l hl nxt m hm => ?_) hk
    rw [hw l (List.mem_of_mem_filter hl) event] at hm
    exact Execution.body_arrives hkeeps id hlimit hset hw (hfinite l hl) (Nat.le_refl _) hm
  · intro event targets p next calls passes i hp houtside hbegins hk
    refine .outside hkeeps (fun h => ⟨h.1.1, h.2⟩) hlimit hp houtside (fun m hm l hl nxt n hn => ?_) hk
    obtain ⟨hw, hfinite⟩ := hbegins m hm
    rw [hw l (List.mem_of_mem_filter hl) event] at hn
    exact Execution.body_arrives hkeeps And.left hlimit List.mem_cons_self hw (hfinite l hl) (Nat.le_refl _) hn
  · rw [Publication.calls_eq]
    exact List.flatMap_congr fun r _ => Reaction.calls_eq _ r
  · have hstems := (hT.performs r hr).stems T' hT'
    refine ⟨hstems, fun hnone => ?_⟩
    rw [hstems.listeners, hnone]
    exact List.filter_true set
  · intro set depth event targets T hT
    have hbecomes := Family.publication_some hT
    refine ⟨hbecomes, fun next calls passes cs k => ?_⟩
    rintro ⟨T', hevent, htargets, hstems, rfl, rfl⟩
    rw [hbecomes.unique T' hstems hevent htargets]
    exact ⟨rfl, rfl⟩

/-- The second listener is of a type of its own. -/
def Cast.paired : Cast := { Cast.sample with type := fun l => if l = 2 then ⟨"Relay"⟩ else ⟨"Module"⟩ }

/-- Listener 2 relays the request to everybody, and if somebody fails it informs the modules; listener 3 panics when
it is reached by the first of the two events. -/
def Family.relaying : Family .bare
  | 2, .shutdownRequested _ => .publishes (.phaseCompleted .launch 3) none fun d =>
      if d.failures.isEmpty then .returns (.ok ())
      else .publishes (.phaseCompleted .launch 1) (some ⟨[⟨"Module"⟩]⟩) fun _ => .returns (.ok ())
  | 3, .phaseCompleted _ 3 => .panics "boom"
  | _, _ => .returns (.ok ())

/-- Three listeners are registered, and a shutdown is requested of the second. -/
def Program.relayed : Program .bare Outcome := do
  let _ ← Bus.register .paired 0 2
  let _ ← Bus.register .paired 0 3
  let _ ← Bus.register .paired 0 4
  let _ ← Bus.publish .paired 0 (.shutdownRequested "test") (some ⟨[⟨"Relay"⟩]⟩)
  .resting

/-- The main task takes all of its steps. -/
def Machine.Execution.relayed : Execution (.behaving .paired 0 .relaying) :=
  .directed _ 1 Program.relayed () (List.replicate 32 (.step 0))

/-- Every event leads to finitely many others. -/
theorem Family.relaying_isFinite (set : List ListenerId) (event : Event) (targets : Option TargetSet) :
    Family.relaying.IsFinite .paired set event targets := by
  have hlater : ∀ l phase n, Family.relaying.Ends .paired set (Family.relaying l (.phaseCompleted phase n)) := by
    intro l phase n
    unfold Family.relaying
    split
    next heq => cases heq
    next => exact .panics _
    next => exact .returns _
  intro l _
  unfold Family.relaying
  split
  next =>
    refine .publishes (fun l' _ => hlater l' _ _) fun T _ _ _ => ?_
    split
    · exact .returns _
    · exact .publishes (fun l' _ => hlater l' _ _) fun _ _ _ _ => .returns _
  next => exact .panics _
  next => exact .returns _

/-- What becomes of the request: listener 2 has informed everybody, and then the modules. -/
def Publication.relayed : Publication :=
  .mk (.shutdownRequested "test") (some ⟨[⟨"Relay"⟩]⟩) [.mk 2
    [.mk (.phaseCompleted .launch 3) none
      [.mk 2 [] (.ok ()), .mk 3 [] (.error (.panicked "boom")), .mk 4 [] (.ok ())],
      .mk (.phaseCompleted .launch 1) (some ⟨[⟨"Module"⟩]⟩) [.mk 3 [] (.ok ()), .mk 4 [] (.ok ())]] (.ok ())]

open Execution in
/-- Listener 2 alone is asked to shut down; what it publishes meanwhile reaches the others as well, and all of it
is through before the answer comes. -/
theorem nested_delivery_is_recursive_relayed :
    Publication.relayed.calls = [.onEvent 2 (.shutdownRequested "test"),
      .onEvent 2 (.phaseCompleted .launch 3), .onEvent 3 (.phaseCompleted .launch 3),
      .onEvent 4 (.phaseCompleted .launch 3),
      .onEvent 3 (.phaseCompleted .launch 1), .onEvent 4 (.phaseCompleted .launch 1)] ∧
    ∃ n, relayed.called 0 13 n = Publication.relayed.calls ∧
      (relayed.state n).core 0 = some ⟨.running .resting, [], []⟩ := by
  have hclock : (relayed.state 33).tick = none := rfl
  have hrests : (relayed.state 33).core 0 = some ⟨.waiting .forever, [], []⟩ := rfl
  have hwithin : ∀ n, n ≤ 33 → 13 ≤ n → ((relayed.state n).core 0).any (Core.isWithin 0) = true := by
    decide +kernel
  have hset : ∀ m, 13 ≤ m → relayed.listeners 0 m = [2, 3, 4] := by
    have hearly : ∀ m, m ≤ 33 → 13 ≤ m → relayed.listeners 0 m = [2, 3, 4] := by decide +kernel
    intro m hm
    rcases Nat.le_total m 33 with hle | hge
    · exact hearly m hle hm
    · have hsame : relayed.state m = relayed.state 33 := directed_rest hclock hge
      rw [Execution.listeners, hsame]
      exact hearly 33 (Nat.le_refl 33) (by decide)
  have hlimit : Cast.paired.listenerLimit 0 = none := rfl
  obtain ⟨-, houtside, -, -, hrecursive⟩ :=
    nested_delivery_is_recursive (c := .relaying) relayed (directed_keepsLimits 0) hlimit
  have hpublish : (relayed.state 13).core 0 = some ⟨.running (Bus.publish .paired 0 (.shutdownRequested "test")
      (some ⟨[⟨"Relay"⟩]⟩) >>= fun _ => .resting), [], []⟩ := rfl
  obtain ⟨n, k, -, hk, m, hm, -, hpublishes⟩ := (houtside _ _ _ _ [] [] 13 (.emit _) (by rintro _ ⟨⟩)
    (fun m _ => ⟨fun _ _ _ => rfl, Family.relaying_isFinite _ _ _⟩) hpublish).comes
    ⟨⟨directed_attends hclock rfl rfl rfl, directed_resumes hclock rfl hrests 0⟩,
      directed_admits hclock rfl 0 fun _ _ _ hwaits => by cases hrests.symm.trans hwaits⟩
    fun j => directed_uncut hclock hwithin (by decide) j
  rw [hset m hm] at hpublishes
  obtain ⟨hcalls, rfl⟩ := (hrecursive [2, 3, 4] 3 _ _ Publication.relayed rfl).2 _ _ _ _ _ hpublishes
  exact ⟨rfl, n, hcalls, hk⟩
end Orchestra
