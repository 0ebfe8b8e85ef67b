import Orchestra.Proofs.Clock
import Orchestra.Proofs.Recursion

/-!
# How long a call takes

A call takes as long as what is done in it: sleeps, and further calls, each of which is given up when its limit
is reached.  What comes to its end at the moment of its limit is not given up.

* `Lapse` — what something comes to, and when; `Lapse.within` — what is told of it by whoever waits no longer
  than a limit;
* `Chore`, `Chore.lapse` — what a body does with its time, and what that comes to;
* `World.Does` — a program does a chore;
* `Execution.Spans` — a task comes to a certain place at a certain moment, with one rule for each kind of step:
  `Spans.instant`, `Spans.sleep`, `Spans.call`, `Spans.andThen`;
* `Acts.operates`, `Acts.proceeds`, `Acts.answered` — what a task does with a step, and what it is then;
* `Execution.ends_of_deadline` — no call is in progress for ever within a limit;
* `Execution.body_spans` — the body of a call, by induction on its chore;
* `guarded_call_yields_outcome_or_limit` — a call yields its own outcome or its limit, whichever comes first.
-/

namespace Orchestra

open Machine

variable {A : Application} {α β : Type}

/-! ### What something comes to, and when -/

/-- What something comes to, and after how many milliseconds; nothing if it never comes to an end. -/
abbrev Lapse (α : Type) := Option (Nat × α)

namespace Lapse

/-- What comes at once. -/
def now (a : α) : Lapse α := some (0, a)

/-- One thing after another. -/
def andThen (l : Lapse α) (f : α → Lapse β) : Lapse β :=
  l.bind fun (T, a) => (f a).map fun (T', b) => (T + T', b)

/-- It takes longer than so many milliseconds, or for ever. -/
def Outlasts (l : Lapse α) (millis : Nat) : Prop := ∀ T a, l = some (T, a) → millis < T

/-- What is told of something by whoever waits no longer than a limit. -/
def within (limit : Option Duration) (l : Lapse Outcome) : Lapse Outcome :=
  match limit, l with
  | none, l => l
  | some d, none => some (d.ceilMillis, .error (.timedOut d))
  | some d, some (T, o) =>
    if T ≤ d.ceilMillis then some (T, o) else some (d.ceilMillis, .error (.timedOut d))

theorem andThen_eq_some_iff {l : Lapse α} {f : α → Lapse β} {T : Nat} {b : β} :
    l.andThen f = some (T, b) ↔ ∃ T₁ a T₂, l = some (T₁, a) ∧ f a = some (T₂, b) ∧ T₁ + T₂ = T := by
  constructor
  · intro h
    obtain ⟨⟨T₁, a⟩, hl, hmap⟩ := Option.bind_eq_some_iff.1 h
    obtain ⟨⟨T₂, b'⟩, hf, heq⟩ := Option.map_eq_some_iff.1 hmap
    cases heq
    exact ⟨T₁, a, T₂, hl, hf, rfl⟩
  · rintro ⟨T₁, a, T₂, rfl, hf, rfl⟩
    show ((f a).map fun (T', b) => (T₁ + T', b)) = some (T₁ + T₂, b)
    rw [hf]
    rfl

theorem now_andThen (a : α) (f : α → Lapse β) : (now a).andThen f = f a := by
  show ((f a).map fun (T', b) => (0 + T', b)) = f a
  cases f a with
  | none => rfl
  | some r => exact congrArg (fun T => some (T, r.2)) (Nat.zero_add r.1)

theorem within_of_le {limit : Option Duration} {T : Nat} {o : Outcome}
    (h : ∀ d, limit = some d → T ≤ d.ceilMillis) : within limit (some (T, o)) = some (T, o) := by
  cases limit with
  | none => rfl
  | some d => exact if_pos (h d rfl)

theorem within_of_outlasts {d : Duration} {l : Lapse Outcome} (h : l.Outlasts d.ceilMillis) :
    l.within (some d) = some (d.ceilMillis, .error (.timedOut d)) := by
  cases l with
  | none => rfl
  | some r => exact if_neg (Nat.not_le_of_lt (h r.1 r.2 rfl))

/-- Either something comes to its end within the limit, or it takes longer. -/
theorem within_cases {limit : Option Duration} {l : Lapse Outcome} {T : Nat} {o : Outcome}
    (h : l.within limit = some (T, o)) : l = some (T, o) ∨
      ∃ d, limit = some d ∧ T = d.ceilMillis ∧ l.Outlasts d.ceilMillis := by
  cases limit with
  | none => exact .inl h
  | some d =>
    cases l with
    | none =>
      cases h
      exact .inr ⟨d, rfl, rfl, nofun⟩
    | some r =>
      rw [within] at h
      split at h
      · exact .inl h
      · next hlater =>
        cases h
        refine .inr ⟨d, rfl, rfl, fun T a heq => ?_⟩
        obtain rfl := Option.some.inj heq
        exact Nat.lt_of_not_le hlater

end Lapse

/-! ### Chores -/

/-- What a body does with its time. -/
inductive Chore where
  | ends (o : Outcome)
  | panics (payload : Payload)
  | hangs
  | sleeps (millis : Nat) (rest : Chore)
  /-- It calls another body, with or without a limit, and goes on with what it is told. -/
  | calls (limit : Option Duration) (inner : Chore) (rest : Outcome → Chore)

/-- What a chore comes to, and when.  A call in it counts for the time that it takes under its limit. -/
def Chore.lapse : Chore → Lapse Outcome
  | ends o => .now o
  | panics payload => .now (.error (.panicked payload.message))
  | hangs => none
  | sleeps millis rest => Lapse.andThen (some (millis, ())) fun _ => rest.lapse
  | calls limit inner rest => (inner.lapse.within limit).andThen fun o => (rest o).lapse

/-- An operation that is no call and no panic, and that nobody has to wait for. -/
def Op.IsInstant (op : Op A) : Prop := op.Stays ∧ ∀ next wait, ¬ op.WaitsIn next wait

/-- A program does a chore in a world; besides, it may do what takes no time. -/
inductive World.Does (w : World A) : Program A Outcome → Chore → Prop where
  | ends (o : Outcome) : w.Does (.done o) (.ends o)
  | panics (payload : Payload) (next : Empty → Program A Outcome) :
      w.Does (.perform (.panic payload) next) (.panics payload)
  | hangs (next : Empty → Program A Outcome) : w.Does (.perform .hang next) .hangs
  | sleeps (millis : Nat) {next : Unit → Program A Outcome} {rest : Chore} : w.Does (next ()) rest →
      w.Does (.perform (.sleep millis) next) (.sleeps millis rest)
  | calls {callee : Callee} {limit : Option Duration} {next : Outcome → Program A Outcome} {inner : Chore}
      {rest : Outcome → Chore} : w.Does (w.body callee) inner → (∀ o, w.Does (next o) (rest o)) →
      w.Does (.perform (.call callee limit) next) (.calls limit inner rest)
  | aside {op : Op A} {next : op.Answer → Program A Outcome} {c : Chore} : op.IsInstant →
      (∀ a, w.Does (next a) c) → w.Does (.perform op next) c

/-- The calls that a body makes are nested finitely deep. -/
inductive World.IsFounded (w : World A) : Callee → Prop where
  | intro {callee : Callee} :
      (∀ tr callee' limit, (w.body callee).Asks tr (.call callee' limit) → w.IsFounded callee') →
      w.IsFounded callee

/-- Whoever is called by a program that does a chore. -/
theorem World.Does.isFounded {w : World A} {p : Program A Outcome} {c : Chore} (h : w.Does p c)
    {tr : List (Exchange A)} {callee : Callee} {limit : Option Duration} (hasks : p.Asks tr (.call callee limit)) :
    w.IsFounded callee := by
  induction h generalizing tr callee limit with
  | ends o =>
    obtain ⟨rest, hleads⟩ := hasks
    cases hleads
  | panics payload next =>
    obtain ⟨rest, hleads⟩ := hasks
    cases hleads with
    | perform x => exact x.elim
  | hangs next =>
    obtain ⟨rest, hleads⟩ := hasks
    cases hleads with
    | perform x => exact x.elim
  | sleeps millis _ ih =>
    obtain ⟨rest, hleads⟩ := hasks
    cases hleads with
    | perform x hleads => exact ih ⟨rest, hleads⟩
  | calls _ _ ihbody ihnext =>
    obtain ⟨rest, hleads⟩ := hasks
    cases hleads with
    | start => exact ⟨fun tr callee' limit' hasks' => ihbody hasks'⟩
    | perform o hleads => exact ihnext o ⟨rest, hleads⟩
  | aside hop _ ih =>
    obtain ⟨rest, hleads⟩ := hasks
    cases hleads with
    | start => exact hop.1.elim
    | perform a hleads => exact ih a ⟨rest, hleads⟩

namespace Machine

/-- The moment `due` has not passed, and is still to come if task `t` is held up inside of `d` calls. -/
def State.IsEarly (s : State A) (t : TaskId) (d due : Nat) : Prop :=
  s.now ≤ due ∧ (s.IsHeldUp t d → s.now < due)

theorem State.IsEarly.outward {s : State A} {t : TaskId} {d due : Nat} (h : s.IsEarly t (d + 1) due) :
    s.IsEarly t d due :=
  ⟨h.1, fun hheld => h.2 hheld.succ⟩

theorem State.isEarly_of_running {s : State A} {t : TaskId} {d due : Nat} {p : Program A Outcome}
    {calls : Calls A} {passes : List Pass} (hk : s.core t = some ⟨.running p, calls, passes⟩) (hdue : s.now ≤ due) :
    s.IsEarly t d due :=
  ⟨hdue, fun hheld => absurd hk hheld.not_running⟩

namespace Execution

variable {w : World A} {x : Execution w} {t : TaskId} {live : Prop} {d i j l m n due : Nat} {k : Core A}
  {calls : Calls A} {passes : List Pass} {I I' : Core A → Prop}

/-! ### Coming to a place in time -/

/-- Task `t`, inside of `d` calls after `i` steps, comes to where `Q` holds of it at the moment that is given.  As
long as it is not cut off from the calls it is on its way, as `I` says, and early, or has come there in time; and
it comes there if nothing keeps it from going on.  If it never comes to an end it is on its way for ever. -/
structure Spans (x : Execution w) (t : TaskId) (live : Prop) (d i : Nat) (I : Core A → Prop) (r : Lapse α)
    (Q : α → Core A → Prop) : Prop where
  followed : ∀ j, i ≤ j → x.Uncut t d i j →
    (∃ k, (x.state j).core t = some k ∧ I k ∧
      ∀ T a, r = some (T, a) → (x.state j).IsEarly t d ((x.state i).now + T)) ∨
    ∃ n k T a, i ≤ n ∧ n ≤ j ∧ (x.state n).core t = some k ∧ r = some (T, a) ∧
      (x.state n).now = (x.state i).now + T ∧ Q a k
  comes : live → (∀ j, x.Uncut t d i j) → ∀ T a, r = some (T, a) →
    ∃ n k, i ≤ n ∧ (x.state n).core t = some k ∧ (x.state n).now = (x.state i).now + T ∧ Q a k

namespace Spans

variable {r : Lapse α} {Q Q' : α → Core A → Prop}

theorem here {a : α} (hk : (x.state i).core t = some k) (hQ : Q a k) : x.Spans t live d i I (.now a) Q where
  followed j hj _ := .inr ⟨i, k, 0, a, Nat.le_refl i, hj, hk, rfl, rfl, hQ⟩
  comes _ _ T b hr := by
    cases hr
    exact ⟨i, k, Nat.le_refl i, hk, rfl, hQ⟩

theorem mono (h : x.Spans t live d i I r Q) (hI : ∀ k, I k → I' k) (hQ : ∀ a k, Q a k → Q' a k) :
    x.Spans t live d i I' r Q' where
  followed j hj huncut := by
    rcases h.followed j hj huncut with ⟨k, hk, hway, hearly⟩ | ⟨n, k, T, a, hi, hn, hk, hr, hnow, hthere⟩
    · exact .inl ⟨k, hk, hI k hway, hearly⟩
    · exact .inr ⟨n, k, T, a, hi, hn, hk, hr, hnow, hQ a k hthere⟩
  comes hlive huncut T a hr := by
    obtain ⟨n, k, hi, hk, hnow, hthere⟩ := h.comes hlive huncut T a hr
    exact ⟨n, k, hi, hk, hnow, hQ a k hthere⟩

/-- One way after another. -/
theorem andThen {f : α → Lapse β} {R : β → Core A → Prop} (h : x.Spans t live d i I r Q)
    (hnext : ∀ n k T a, i ≤ n → (x.state n).core t = some k → r = some (T, a) →
      (x.state n).now = (x.state i).now + T → Q a k → x.Spans t live d n I (f a) R) :
    x.Spans t live d i I (r.andThen f) R where
  followed j hj huncut := by
    rcases h.followed j hj huncut with ⟨k, hk, hway, hearly⟩ | ⟨n, k, T, a, hi, hn, hk, hr, hnow, hthere⟩
    · refine .inl ⟨k, hk, hway, fun T b heq => ?_⟩
      obtain ⟨T₁, a, T₂, hr, -, rfl⟩ := Lapse.andThen_eq_some_iff.1 heq
      obtain ⟨hle, hlt⟩ := hearly T₁ a hr
      exact ⟨by omega, fun hheld => by have := hlt hheld; omega⟩
    · rcases (hnext n k T a hi hk hr hnow hthere).followed j hn (huncut.tail hi) with
        ⟨k', hk', hway, hearly⟩ | ⟨n', k', T', b, hn', hj', hk', hf, hnow', hthere'⟩
      · refine .inl ⟨k', hk', hway, fun T₁₂ b heq => ?_⟩
        obtain ⟨T₁, a', T₂, hr', hf, rfl⟩ := Lapse.andThen_eq_some_iff.1 heq
        cases hr.symm.trans hr'
        rw [← Nat.add_assoc, ← hnow]
        exact hearly T₂ b hf
      · refine .inr ⟨n', k', T + T', b, Nat.le_trans hi hn', hj', hk', ?_, by omega, hthere'⟩
        exact Lapse.andThen_eq_some_iff.2 ⟨T, a, T', hr, hf, rfl⟩
  comes hlive huncut T b heq := by
    obtain ⟨T₁, a, T₂, hr, hf, rfl⟩ := Lapse.andThen_eq_some_iff.1 heq
    obtain ⟨n, k, hi, hk, hnow, hthere⟩ := h.comes hlive huncut T₁ a hr
    obtain ⟨n', k', hn', hk', hnow', hthere'⟩ :=
      (hnext n k T₁ a hi hk hr hnow hthere).comes hlive (fun j => (huncut j).tail hi) T₂ b hf
    exact ⟨n', k', Nat.le_trans hi hn', hk', by omega, hthere'⟩

end Spans

/-! ### Steps -/

section Steps

variable {p : Program A Outcome} {next : Program A Outcome}

/-- What a task that goes on asks for is done with its next step. -/
theorem Acts.operates {op : Op A} {next : op.Answer → Program A Outcome} {k' : Core A}
    (h : x.Acts t d ⟨.running (.perform op next), calls, passes⟩ i n k') :
    x.state (n + 1) = (x.state n).operate w t op next :=
  operates_of_turn h.turn h.before

/-- A task that waits goes on when its wait is over. -/
theorem Acts.proceeds {wait : Wait A} {k' : Core A}
    (h : x.Acts t calls.length ⟨.waiting wait, calls, passes⟩ i n k') :
    ∃ wait', wait'.bare = wait ∧ (x.state n).proceed t wait' = some (x.state (n + 1)) := by
  obtain ⟨wait', hbare, hproceed, -⟩ :=
    State.proceed_of_advance (advance_of_turn h.turn) h.after h.goesOn h.depth h.before
  exact ⟨wait', hbare, hproceed⟩

/-- What a task is after a step that sets its status. -/
theorem Acts.becomes {k' : Core A} (h : x.Acts t d k i n k') (s : State A) (status : Status A)
    (hafter : (x.state (n + 1)).core t = (s.setStatus t status).core t)
    (hbefore : s.core t = (x.state n).core t) : k' = ⟨status.doing, k.calls, k.passes⟩ := by
  have hk' := h.after
  rw [hafter, State.core_setStatus (hbefore.trans h.before)] at hk'
  exact (Option.some.inj hk').symm

/-- One step of a task that goes on takes no time. -/
theorem Spans.instant {Q : Unit → Core A → Prop} (htime : x.KeepsTime t) (hlive : live → x.Attends t)
    (hk : (x.state i).core t = some ⟨.running p, calls, passes⟩) (hI : I ⟨.running p, calls, passes⟩)
    (hnext : ∀ n k', x.Acts t d ⟨.running p, calls, passes⟩ i n k' → Q () k') :
    x.Spans t live d i I (.now ()) Q := by
  have hthere : ∀ n k', x.Acts t d ⟨.running p, calls, passes⟩ i n k' →
      (x.state (n + 1)).now = (x.state i).now + 0 := by
    intro n k' hacts
    rw [htime.now_of_turn hacts.turn, hacts.rests.now_of_running htime hacts.le]
    rfl
  refine ⟨fun j hj huncut => ?_, fun h huncut T _ hr => ?_⟩
  · rcases first_turn huncut hj hk with hrests | ⟨n, k', hn, hacts⟩
    · refine .inl ⟨_, hrests.last hj, hI, fun T _ hr => ?_⟩
      cases hr
      exact State.isEarly_of_running (hrests.last hj) (Nat.le_of_eq (hrests.now_of_running htime hj))
    · exact .inr ⟨n + 1, k', 0, (), Nat.le_succ_of_le hacts.le, hn, hacts.after, rfl, hthere n k' hacts,
        hnext n k' hacts⟩
  · cases hr
    obtain ⟨n, k', hacts⟩ := (hlive h).acts huncut hk
    exact ⟨n + 1, k', Nat.le_succ_of_le hacts.le, hacts.after, hthere n k' hacts, hnext n k' hacts⟩

/-- A task that goes to sleep is told when to wake up. -/
theorem asleep_of_acts {millis : Nat} {next : Unit → Program A Outcome} {k' : Core A}
    (h : x.Acts t d ⟨.running (.perform (.sleep millis) next), calls, passes⟩ i n k') :
    k' = ⟨.waiting (.sleeping ((x.state n).now + millis) (next ())), calls, passes⟩ :=
  h.becomes (x.state n) (.waiting (.sleeping ((x.state n).now + millis) (next ())) none)
    (by rw [h.operates]; rfl) rfl

/-- A task that wakes up does so in time. -/
theorem awake_of_acts {k' : Core A}
    (h : x.Acts t calls.length ⟨.waiting (.sleeping due next), calls, passes⟩ i n k') :
    due ≤ (x.state n).now ∧ k' = ⟨.running next, calls, passes⟩ := by
  obtain ⟨wait, hbare, hproceed⟩ := h.proceeds
  cases wait <;> cases hbare
  rw [State.proceed] at hproceed
  split at hproceed
  · next hdue =>
    exact ⟨hdue, h.becomes (x.state n) (.running next) (by rw [← Option.some.inj hproceed]; rfl) rfl⟩
  · cases hproceed

/-- What time it is while a task sleeps. -/
theorem Rests.now_le_due (h : x.Rests t ⟨.waiting (.sleeping due next), calls, passes⟩ i j)
    (htime : x.KeepsTime t) (hij : i ≤ j) (hnow : (x.state i).now ≤ due) : (x.state j).now ≤ due :=
  htime.now_le hij hnow fun n hi hn => .inr ((State.mem_dues_iff (h.core n hi (Nat.le_of_lt hn))).2 (.inl rfl))

/-- **A task that sleeps** wakes up at the moment that it has been told. -/
theorem Spans.asleep (htime : x.KeepsTime t) (hlive : live → x.Attends t ∧ x.Wakes t)
    (hk : (x.state i).core t = some ⟨.waiting (.sleeping due next), calls, passes⟩)
    (hnow : (x.state i).now ≤ due) (hI : I ⟨.waiting (.sleeping due next), calls, passes⟩) :
    x.Spans t live calls.length i I (some (due - (x.state i).now, ())) fun _ k =>
      k = ⟨.running next, calls, passes⟩ := by
  have hwhen : (x.state i).now + (due - (x.state i).now) = due := Nat.add_sub_cancel' hnow
  have hthere : ∀ n k', x.Acts t calls.length ⟨.waiting (.sleeping due next), calls, passes⟩ i n k' →
      (x.state (n + 1)).now = (x.state i).now + (due - (x.state i).now) ∧ k' = ⟨.running next, calls, passes⟩ := by
    intro n k' hacts
    obtain ⟨hdue, hk'⟩ := awake_of_acts hacts
    rw [htime.now_of_turn hacts.turn, hwhen]
    exact ⟨Nat.le_antisymm (hacts.rests.now_le_due htime hacts.le hnow) hdue, hk'⟩
  refine ⟨fun j hj huncut => ?_, fun h huncut T _ hr => ?_⟩
  · rcases first_turn huncut hj hk with hrests | ⟨n, k', hn, hacts⟩
    · refine .inl ⟨_, hrests.last hj, hI, fun T _ hr => ?_⟩
      cases hr
      rw [hwhen]
      exact ⟨hrests.now_le_due htime hj hnow, fun hheld => hheld.lt_due (hrests.last hj)⟩
    · obtain ⟨hnow', hk'⟩ := hthere n k' hacts
      exact .inr ⟨n + 1, k', _, (), Nat.le_succ_of_le hacts.le, hn, hacts.after, rfl, hnow', hk'⟩
  · cases hr
    obtain ⟨n, k', hacts⟩ : ∃ n k',
        x.Acts t calls.length ⟨.waiting (.sleeping due next), calls, passes⟩ i n k' := by
      obtain ⟨m, him, hwakes⟩ := (hlive h).2 i due next calls passes hk
      rcases first_turn (huncut m) him hk with hrests | ⟨n, k', -, hacts⟩
      · rcases hwakes with hdue | hturn
        · obtain ⟨m', hm', hturn⟩ := (hlive h).1.served m
            (State.ready_of_mem_dues ((State.mem_dues_iff (hrests.last him)).2 (.inl rfl)) hdue)
          exact acts_of_turn (huncut (m' + 1)) (Nat.le_trans him hm') hk hturn
        · exact acts_of_turn (huncut (m + 1)) him hk hturn
      · exact ⟨n, k', hacts⟩
    obtain ⟨hnow', hk'⟩ := hthere n k' hacts
    exact ⟨n + 1, k', Nat.le_succ_of_le hacts.le, hacts.after, hnow', hk'⟩

/-- **A sleep** takes the time that is asked for. -/
theorem Spans.sleep {millis : Nat} {next : Unit → Program A Outcome} (htime : x.KeepsTime t)
    (hlive : live → x.Attends t ∧ x.Wakes t)
    (hk : (x.state i).core t = some ⟨.running (.perform (.sleep millis) next), calls, passes⟩)
    (hI : I ⟨.running (.perform (.sleep millis) next), calls, passes⟩)
    (hwaiting : ∀ wait, I ⟨.waiting wait, calls, passes⟩) :
    x.Spans t live calls.length i I (some (millis, ())) fun _ k => k = ⟨.running (next ()), calls, passes⟩ := by
  have hfalls : x.Spans t live calls.length i I (.now ()) fun _ k =>
      k = ⟨.waiting (.sleeping ((x.state i).now + millis) (next ())), calls, passes⟩ :=
    .instant htime (fun h => (hlive h).1) hk hI fun n k' hacts => by
      rw [asleep_of_acts hacts, hacts.rests.now_of_running htime hacts.le]
  rw [← Lapse.now_andThen () fun _ => some (millis, ())]
  refine hfalls.andThen ?_
  rintro n k T a - hk' hr hnow rfl
  cases hr
  have hnow : (x.state n).now = (x.state i).now := hnow
  have hsleep := Spans.asleep htime hlive hk' (by omega) (hwaiting _)
  rwa [hnow, Nat.add_sub_cancel_left] at hsleep

end Steps

/-- Who asks for what nobody has to wait for has the answer with the next step. -/
theorem Acts.answered {op : Op A} {next : op.Answer → Program A Outcome} {k' : Core A} (hop : op.IsInstant)
    (h : x.Acts t calls.length ⟨.running (.perform op next), calls, passes⟩ i n k') :
    ∃ answer passes', k' = ⟨.running (next answer), calls, passes'⟩ := by
  rcases State.advance_asked (advance_of_turn h.turn) h.after h.goesOn h.depth h.before with
    (⟨wait, passes', hwait, -⟩ | hcalled) | ⟨answer, passes', -, rfl⟩
  · exact absurd hwait (hop.2 next wait)
  · cases op with
    | call callee limit => exact hop.1.elim
    | _ => exact hcalled.elim
  · exact ⟨answer, passes', rfl⟩

/-- An operation that nobody has to wait for is answered at once. -/
theorem Spans.aside {op : Op A} {next : op.Answer → Program A Outcome} (htime : x.KeepsTime t)
    (hlive : live → x.Attends t) (hop : op.IsInstant)
    (hk : (x.state i).core t = some ⟨.running (.perform op next), calls, passes⟩)
    (hI : I ⟨.running (.perform op next), calls, passes⟩) :
    x.Spans t live calls.length i I (.now ()) fun _ k =>
      ∃ answer passes', k = ⟨.running (next answer), calls, passes'⟩ :=
  .instant htime hlive hk hI fun _ _ hacts => hacts.answered hop

/-- A task that waits for nothing waits for ever. -/
theorem Spans.hang {Q : α → Core A → Prop} {next : Empty → Program A Outcome}
    (hk : (x.state i).core t = some ⟨.running (.perform .hang next), calls, passes⟩)
    (hI : I ⟨.running (.perform .hang next), calls, passes⟩) (hwaiting : I ⟨.waiting .forever, calls, passes⟩) :
    x.Spans t live calls.length i I none Q where
  followed j hj huncut := by
    refine .inl ?_
    rcases first_turn huncut hj hk with hrests | ⟨n, k', hn, hacts⟩
    · exact ⟨_, hrests.last hj, hI, nofun⟩
    · obtain rfl := hacts.becomes (x.state n) (.waiting .forever none) (by rw [hacts.operates]; rfl) rfl
      rcases first_turn (huncut.tail (Nat.le_succ_of_le hacts.le)) hn hacts.after with hrests | ⟨n', k'', -, hacts'⟩
      · exact ⟨_, hrests.last hn, hwaiting, nofun⟩
      · obtain ⟨wait, hbare, hproceed⟩ := hacts'.proceeds
        cases wait <;> cases hbare
        cases hproceed
  comes _ _ := nofun

/-! ### Calls -/

/-- Where a body comes to, from within a call: to its end, with the outcome and at the moment that are given. -/
abbrev Takes (x : Execution w) (t : TaskId) (live : Prop) (f : Nat × (Outcome → Program A Outcome))
    (calls : Calls A) (i : Nat) (r : Lapse Outcome) : Prop :=
  x.Spans t live (calls.length + 1) i (fun k => ¬ k.AtEnd (calls.length + 1)) r fun o k =>
    ∃ p passes, p.EndsWith o ∧ k = ⟨.running p, f :: calls, passes⟩

section Call

variable {callee : Callee} {limit : Option Duration} {next : Outcome → Program A Outcome} {r : Lapse Outcome}
  {f : Nat × (Outcome → Program A Outcome)}

theorem Awaits.until {op : Op A} {next : op.Answer → Program A Outcome} (h : x.Awaits t calls op next m n)
    (hln : l ≤ n) : x.Awaits t calls op next m l :=
  ⟨h.turn, h.before, fun a ha hal => h.pends a ha (Nat.le_trans hal hln)⟩

/-- The deadline of a call has not passed while the call is in progress. -/
theorem Awaits.now_le (h : x.Awaits t calls (.call callee limit) next m n) (htime : x.KeepsTime t)
    (hkeeps : x.KeepsLimits t) (hmn : m < n) (huncut : x.Uncut t calls.length m n) {d : Duration}
    (hlimit : limit = some d) : (x.state n).now ≤ (x.state m).now + d.ceilMillis := by
  subst hlimit
  refine htime.now_le hmn ?_ fun l hl hln => ?_
  · rw [htime.now_of_turn h.turn]
    exact Nat.le_add_right _ _
  · have hsofar := huncut.mono (Nat.le_refl m) (Nat.le_of_lt hln)
    obtain ⟨⟨doing, calls', passes'⟩, hk, hended, -⟩ := huncut l (Nat.le_of_lt hl) (Nat.le_of_lt hln)
    cases doing with
    | running p => exact .inl (State.ready_of_running hk)
    | waiting wait =>
      refine .inr ((State.mem_dues_iff hk).2 (.inr ⟨d, ?_⟩))
      exact ((h.until (Nat.le_of_lt hln)).deadline hkeeps hl hsofar).1.subset List.mem_cons_self
    | ended => exact absurd rfl hended

/-- How far a body has come: it is on its way, or stands at its end. -/
theorem Takes.stands (hbody : x.Takes t live f calls i r) (htime : x.KeepsTime t) (hin : i ≤ n)
    (huncut : x.Uncut t (calls.length + 1) i n) (hk : (x.state n).core t = some k) :
    ¬ k.AtEnd (calls.length + 1) ∧
        (∀ T o, r = some (T, o) → (x.state n).IsEarly t (calls.length + 1) ((x.state i).now + T)) ∨
      ∃ T o p passes, r = some (T, o) ∧ (x.state n).now = (x.state i).now + T ∧ p.EndsWith o ∧
        k = ⟨.running p, f :: calls, passes⟩ := by
  rcases hbody.followed n hin huncut with
    ⟨k', hk', hway, hearly⟩ | ⟨l, k', T, o, hl, hln, hk', hr, hnow, p, passes, hends, rfl⟩
  · obtain rfl := Option.some.inj (hk.symm.trans hk')
    exact .inl ⟨hway, hearly⟩
  · have hrests := rests_at_end hends hln (huncut.tail hl) hk'
    obtain rfl := Option.some.inj (hk.symm.trans (hrests.last hln))
    exact .inr ⟨T, o, p, passes, hr, (hrests.now_of_running htime hln).trans hnow, hends, rfl⟩

/-- A call in progress is early. -/
theorem Takes.isEarly (hbody : x.Takes t live f calls (m + 1) r) (htime : x.KeepsTime t)
    (hkeeps : x.KeepsLimits t) (hawaits : x.Awaits t calls (.call callee limit) next m n) (hmn : m < n)
    (huncut : x.Uncut t calls.length m n) {T : Nat} {o : Outcome} (hr : r.within limit = some (T, o)) :
    (x.state n).IsEarly t calls.length ((x.state m).now + T) := by
  have hinside := hawaits.uncut huncut
  obtain ⟨k, hk, -⟩ := hinside n hmn (Nat.le_refl n)
  have hbegan := htime.now_of_turn hawaits.turn
  rcases Lapse.within_cases hr with hown | ⟨d, rfl, rfl, -⟩
  · rcases hbody.stands htime hmn hinside hk with ⟨-, hearly⟩ | ⟨T', o', p, passes, hr', hnow, -, rfl⟩
    · rw [← hbegan]
      exact (hearly T o hown).outward
    · cases hown.symm.trans hr'
      exact State.isEarly_of_running hk (by omega)
  · refine ⟨hawaits.now_le htime hkeeps hmn huncut rfl, fun hheld => ?_⟩
    obtain ⟨hdeadline, hlength⟩ := hawaits.deadline hkeeps hmn huncut
    exact hheld.lt_deadline hdeadline (Nat.succ.inj hlength)

/-- A call that is left is told its outcome in time. -/
theorem Takes.told (hbody : x.Takes t live f calls (m + 1) r) (htime : x.KeepsTime t)
    (hkeeps : x.KeepsLimits t) (hawaits : x.Awaits t calls (.call callee limit) next m n) (hmn : m < n)
    (huncut : x.Uncut t calls.length m n) (hturn : x.turn n = some t) {fate : Fate}
    (hexplains : x.Explains t calls callee limit m n fate) {p' : Program A Outcome} {passes' : List Pass}
    (hafter : (x.state (n + 1)).core t = some ⟨.running p', calls, passes'⟩) :
    ∃ T, r.within limit = some (T, fate.outcome) ∧ (x.state (n + 1)).now = (x.state m).now + T := by
  have hinside := hawaits.uncut huncut
  obtain ⟨k, hk, -⟩ := hinside n hmn (Nat.le_refl n)
  have hbegan := htime.now_of_turn hawaits.turn
  rw [htime.now_of_turn hturn]
  have hstands := hbody.stands htime hmn hinside hk
  rcases hexplains.cases hk with ⟨p, hdoing, hends, hlevel⟩ | ⟨d, rfl, hlimit, hdue, wait, inner, frame, passes, hwaits⟩
  · rcases hstands with ⟨hnot, -⟩ | ⟨T, o, q, passes, hr, hnow, hends', rfl⟩
    · exact absurd ⟨p, _, hdoing, hends, hlevel⟩ hnot
    · cases hdoing
      obtain rfl := hends.unique hends'
      refine ⟨T, ?_, by omega⟩
      rw [hr]
      exact Lapse.within_of_le fun d hd => by
        have := hawaits.now_le htime hkeeps hmn huncut hd
        omega
  · have hnow := Nat.le_antisymm (hawaits.now_le htime hkeeps hmn huncut hlimit) hdue
    refine ⟨d.ceilMillis, ?_, hnow⟩
    rw [hlimit]
    obtain rfl := Option.some.inj (hk.symm.trans hwaits)
    refine Lapse.within_of_outlasts fun T o hr => ?_
    rcases hstands with ⟨-, hearly⟩ | ⟨_, _, _, _, -, -, -, heq⟩
    · have hheld := State.isHeldUp_of_left (advance_of_turn hturn) hwaits hafter
      have := (hearly T o hr).2 hheld
      omega
    · cases heq

/-- Nothing is left of a call after it: the caller's deliveries are those that were in progress before. -/
theorem Awaits.passes_eq (h : x.Awaits t calls (.call callee limit) next m n) (hmn : m < n)
    (hm : (x.state m).core t = some ⟨.running (.perform (.call callee limit) next), calls, passes⟩)
    (huncut : x.Uncut t calls.length m (n + 1)) {doing : Doing A} {passes' : List Pass}
    (hafter : (x.state (n + 1)).core t = some ⟨doing, calls, passes'⟩) : passes' = passes := by
  have hinside := h.uncut (huncut.mono (Nat.le_refl m) (Nat.le_succ n))
  obtain ⟨k, hk, hended, hdepth⟩ := huncut (m + 1) (Nat.le_succ m) (Nat.succ_le_succ (Nat.le_of_lt hmn))
  obtain rfl := Step.of_call hended hdepth (step_of_turn h.turn hm hk)
  have hbegins : Inside next calls passes ⟨.running (w.body callee), (passes.length, next) :: calls, passes⟩ :=
    ⟨⟨[], rfl, fun f hf => (nomatch hf)⟩, [], rfl⟩
  rcases inside_followed (huncut.tail (Nat.le_succ m)) (Nat.succ_le_succ (Nat.le_of_lt hmn)) hk hbegins with
    ⟨⟨k', hk', ⟨inner, hcalls, -⟩, -⟩, -⟩ | ⟨l, o, hl, hback, hspends⟩
  · obtain rfl := Option.some.inj (hafter.symm.trans hk')
    have hlength := congrArg List.length hcalls
    rw [List.length_append, List.length_cons] at hlength
    dsimp only at hlength
    omega
  · rcases Nat.lt_or_eq_of_le hl with hl | rfl
    · obtain ⟨k', hk', -, hdeeper⟩ := hinside l hspends.le (Nat.le_of_lt_succ hl)
      obtain rfl := Option.some.inj (hback.symm.trans hk')
      exact absurd hdeeper (Nat.not_succ_le_self _)
    · exact (Core.mk.inj (Option.some.inj (hafter.symm.trans hback))).2.2

/-- **No call is in progress for ever within a limit**, its own or that of a call around it. -/
theorem ends_of_deadline (hfounded : w.IsFounded callee) (hattends : x.Attends t)
    (huncut : ∀ n, x.Uncut t calls.length m n) {d : Duration}
    (hlimit : ∀ n, m < n → some (d, due) ∈ (x.state n).limits t) :
    ¬ ∀ n, m ≤ n → x.Awaits t calls (.call callee limit) next m n := by
  induction hfounded generalizing calls limit next m with
  | @intro callee _ ih =>
  refine call_ends hattends huncut fun f tr op rest i hleads hi hinside hforever => ?_
  have hlimit' : ∀ n, i < n → some (d, due) ∈ (x.state n).limits t := fun n hn => hlimit n (Nat.lt_trans hi hn)
  by_cases hop : op.CallsNobody
  · exact answer_comes hattends hop (.inr ⟨d, due, hlimit'⟩) hforever
  · cases op with
    | call callee' limit' => exact ih tr callee' limit' ⟨rest, hleads⟩ hinside hlimit' hforever
    | _ => exact absurd trivial hop

/-- **A call** takes as long as its body, or as its limit if that is reached before. -/
theorem Spans.call (htime : x.KeepsTime t) (hkeeps : x.KeepsLimits t) (hlive : live → x.Attends t)
    (hfounded : w.IsFounded callee)
    (hk : (x.state i).core t = some ⟨.running (.perform (.call callee limit) next), calls, passes⟩)
    (hI : I ⟨.running (.perform (.call callee limit) next), calls, passes⟩)
    (hinside : ∀ k passes', Inside next calls passes' k → I k)
    (hbody : ∀ m, (x.state m).core t
        = some ⟨.running (w.body callee), (passes.length, next) :: calls, passes⟩ →
      x.Takes t live (passes.length, next) calls m r) :
    x.Spans t live calls.length i I (r.within limit) fun o k => k = ⟨.running (next o), calls, passes⟩ := by
  -- A call that is left has come to what is given, and in time.
  have hover : ∀ {m n k' o passes'}, x.Uncut t calls.length i (n + 1) →
      x.Acts t calls.length ⟨.running (.perform (.call callee limit) next), calls, passes⟩ i m k' →
      x.Awaits t calls (.call callee limit) next m n → x.Answers t calls ⟨.call callee limit, o⟩ m n →
      (x.state (n + 1)).core t = some ⟨.running (next o), calls, passes'⟩ →
      ∃ T o, i ≤ n + 1 ∧ r.within limit = some (T, o) ∧ (x.state (n + 1)).now = (x.state i).now + T ∧
        (x.state (n + 1)).core t = some ⟨.running (next o), calls, passes⟩ := by
    intro m n k' o passes' huncut hacts hawaits hanswers hafter
    obtain rfl := Step.of_call hacts.goesOn hacts.depth hacts.step
    have hcut := huncut.tail hacts.le
    obtain ⟨hmn, fate, hexplains, hback⟩ := hawaits.over hanswers hkeeps hcut hafter
    obtain ⟨T, hr, hnow⟩ := (hbody (m + 1) hacts.after).told htime hkeeps hawaits hmn
      (hcut.mono (Nat.le_refl m) (Nat.le_succ n)) hanswers.turn hexplains hback
    obtain rfl := hawaits.passes_eq hmn hacts.before hcut hback
    refine ⟨T, fate.outcome, Nat.le_succ_of_le (Nat.le_trans hacts.le (Nat.le_of_lt hmn)), hr, ?_, hback⟩
    rwa [hacts.rests.now_of_running htime hacts.le] at hnow
  refine ⟨fun j hj huncut => ?_, fun h huncut T o hr => ?_⟩
  · rcases first_turn huncut hj hk with hrests | ⟨m, k', hm, hacts⟩
    · refine .inl ⟨_, hrests.last hj, hI, fun T o _ => State.isEarly_of_running (hrests.last hj) ?_⟩
      rw [hrests.now_of_running htime hj]
      exact Nat.le_add_right _ _
    rcases hacts.asked.followed (Nat.le_of_lt hm) (huncut.tail hacts.le) with
      hawaits | ⟨n, o, passes', hn, hawaits, hanswers, hafter⟩
    · obtain ⟨k, passes', hk, hcalled⟩ := hawaits.inside hm (Nat.le_refl j)
      refine .inl ⟨k, hk, hinside k passes' hcalled, fun T o hr => ?_⟩
      obtain rfl := Step.of_call hacts.goesOn hacts.depth hacts.step
      rw [← hacts.rests.now_of_running htime hacts.le]
      exact (hbody (m + 1) hacts.after).isEarly htime hkeeps hawaits hm (huncut.tail hacts.le) hr
    · obtain ⟨T, o, hi, hr, hnow, hback⟩ := hover (huncut.mono (Nat.le_refl i) hn) hacts hawaits hanswers hafter
      exact .inr ⟨n + 1, _, T, o, hi, hn, hback, hr, hnow, rfl⟩
  · obtain ⟨m, k', hacts⟩ := (hlive h).acts huncut hk
    have huncut' : ∀ n, x.Uncut t calls.length m n := fun n => (huncut n).tail hacts.le
    by_contra hnever
    have hforever : ∀ n, m ≤ n → x.Awaits t calls (.call callee limit) next m n := by
      intro n hn
      rcases hacts.asked.followed hn (huncut' n) with hawaits | ⟨l, o', passes', -, hawaits, hanswers, hafter⟩
      · exact hawaits
      · obtain ⟨T', o'', hi, hr', hnow, hback⟩ := hover (huncut (l + 1)) hacts hawaits hanswers hafter
        cases hr.symm.trans hr'
        exact absurd ⟨l + 1, _, hi, hback, hnow, rfl⟩ hnever
    cases hlimit : limit with
    | some d =>
      -- Within a limit no call is in progress for ever.
      subst hlimit
      have hdeadline : ∀ n, m < n → some (d, (x.state m).now + d.ceilMillis) ∈ (x.state n).limits t :=
        fun n hmn =>
          ((hforever n (Nat.le_of_lt hmn)).deadline hkeeps hmn (huncut' n)).1.subset List.mem_cons_self
      exact ends_of_deadline hfounded (hlive h) huncut' hdeadline hforever
    | none =>
      -- Without a limit the body comes to its end, and then the call is left.
      subst hlimit
      have hinside := uncut_of_forever hforever huncut'
      obtain rfl := Step.of_call hacts.goesOn hacts.depth hacts.step
      obtain ⟨n, k, hn, hend, -, p, passes', hends, rfl⟩ :=
        (hbody (m + 1) hacts.after).comes h hinside T o hr
      obtain ⟨l, c, hleaves⟩ := (hlive h).acts (fun j => (hinside j).tail hn) hend
      exact not_acts_at_end hends hleaves

end Call

/-! ### Bodies -/

/-- **A body takes the time of its chore.** -/
theorem body_spans (htime : x.KeepsTime t) (hkeeps : x.KeepsLimits t) (hlive : live → x.Attends t ∧ x.Wakes t)
    {p : Program A Outcome} {c : Chore} (hdoes : w.Does p c) {f : Nat × (Outcome → Program A Outcome)}
    (hk : (x.state i).core t = some ⟨.running p, f :: calls, passes⟩) :
    x.Takes t live f calls i c.lapse := by
  have hattends : live → x.Attends t := fun h => (hlive h).1
  have hrunning : ∀ {op : Op A} {next : op.Answer → Program A Outcome} {d : Nat} {calls : Calls A}
      {passes : List Pass}, (∀ payload, op ≠ .panic payload) →
      ¬ Core.AtEnd d ⟨.running (.perform op next), calls, passes⟩ := by
    rintro op next d calls passes hop ⟨q, o, hdoing, hends, -⟩
    obtain rfl := Doing.running.inj hdoing
    generalize hq : Program.perform op next = q at hends
    cases hends with
    | done o => cases hq
    | panics payload next' => exact hop payload (Program.perform.inj hq).1
  have hwaiting : ∀ {d : Nat} (wait : Wait A) (calls : Calls A) (passes : List Pass),
      ¬ Core.AtEnd d ⟨.waiting wait, calls, passes⟩ := by
    rintro d wait calls passes ⟨p, o, hdoing, -⟩
    cases hdoing
  have hinside : ∀ {next : Outcome → Program A Outcome} {calls : Calls A} (k : Core A) (passes : List Pass),
      Inside next calls passes k → ¬ k.AtEnd calls.length := by
    rintro next calls k passes ⟨⟨inner, hcalls, -⟩, -⟩ ⟨p, o, -, -, hlevel⟩
    rw [hcalls, List.length_append, List.length_cons] at hlevel
    omega
  induction hdoes generalizing i f calls passes with
  | ends o => exact .here hk ⟨_, passes, .done o, rfl⟩
  | panics payload next => exact .here hk ⟨_, passes, .panics payload next, rfl⟩
  | hangs next => exact .hang hk (hrunning (by rintro _ ⟨⟩)) (hwaiting _ _ _)
  | @sleeps millis next rest _ ih =>
    refine (Spans.sleep htime hlive hk (hrunning (by rintro _ ⟨⟩)) fun wait => hwaiting wait _ passes).andThen ?_
    rintro n _ _ _ - hk' - - rfl
    exact ih hk'
  | @calls callee limit next inner rest hinner _ ihbody ihnext =>
    have hfounded : w.IsFounded callee := ⟨fun tr callee' limit' hasks => hinner.isFounded hasks⟩
    refine (Spans.call htime hkeeps hattends hfounded hk (hrunning (by rintro _ ⟨⟩)) hinside fun m hm => ?_).andThen ?_
    · exact ihbody hm
    · rintro n _ _ o - hk' - - rfl
      exact ihnext o hk'
  | @aside op next c hop _ ih =>
    rw [← Lapse.now_andThen () fun _ => c.lapse]
    have hgoesOn : ∀ payload, op ≠ .panic payload := fun payload heq => (heq ▸ hop).1
    refine (Spans.aside htime hattends hop hk (hrunning hgoesOn)).andThen ?_
    rintro n _ _ _ - hk' - - ⟨a, passes', rfl⟩
    exact ih a hk'

/-- What becomes of a call that task `t` makes after `i` steps: at the given moment, and not before, the caller goes
on with the given outcome, with nothing left of the call.  It does so if the task gets its turns and wakes up, and
is not cut off from the caller. -/
def Yields (x : Execution w) (t : TaskId) (i : Nat) (callee : Callee) (limit : Option Duration)
    (next : Outcome → Program A Outcome) (calls : Calls A) (passes : List Pass) (r : Lapse Outcome) : Prop :=
  x.Spans t (x.Attends t ∧ x.Wakes t) calls.length i
    (fun k => k = ⟨.running (.perform (.call callee limit) next), calls, passes⟩ ∨
      ∃ passes', Inside next calls passes' k) r
    fun o k => k = ⟨.running (next o), calls, passes⟩

end Execution

end Machine

/-! ### The main result -/

theorem Duration.ceilMillis_ofMillis (millis : Nat) : (Duration.ofMillis millis).ceilMillis = millis := by
  show (millis / 1000 * 1000000000 + millis % 1000 * 1000000 + 999999) / 1000000 = millis
  omega

theorem Duration.limit?_eq_none_iff {d : Duration} : d.limit? = none ↔ d = zero := by
  unfold limit?
  split <;> simp_all

/-- **A guarded call yields its own outcome or its limit**, whichever comes first, and never unwinds. -/
theorem guarded_call_yields_outcome_or_limit {w : World A} (x : Execution w) {t : TaskId} {i : Nat}
    {callee : Callee} {limit : Option Duration} {next : Outcome → Program A Outcome} {calls : Calls A}
    {passes : List Pass} {c : Chore} (htime : x.KeepsTime t) (hkeeps : x.KeepsLimits t)
    (hdoes : w.Does (w.body callee) c)
    (hk : (x.state i).core t = some ⟨.running (.perform (.call callee limit) next), calls, passes⟩) :
    -- Without a limit, or within it, the caller is told what the body has come to, at the moment when it does.
    (∀ T o, c.lapse = some (T, o) → (∀ d, limit = some d → T ≤ d.ceilMillis) →
      x.Yields t i callee limit next calls passes (some (T, o))) ∧
    -- If the body takes longer the caller is told its limit, at the moment when that is reached.
    (∀ d, limit = some d → c.lapse.Outlasts d.ceilMillis →
      x.Yields t i callee limit next calls passes (some (d.ceilMillis, .error (.timedOut d)))) ∧
    -- Without a limit a body that never comes to an end is waited for for ever.
    (limit = none → c.lapse = none → x.Yields t i callee limit next calls passes none) ∧
    -- Whatever happens inside of the call, the caller is cut off from it only if the task is told to end, or for a
    -- call around the caller whose limit has been reached.
    (∀ n k k' passes', (x.state n).core t = some k → k.doing ≠ .ended → Inside next calls passes' k →
      (x.state (n + 1)).core t = some k' → k'.doing = .ended ∨ k'.calls.length < calls.length →
      (∃ task, (x.state n).tasks[t]? = some task ∧ task.aborted = true) ∨
        ∃ wait d due ls, k.doing = .waiting wait ∧ ls <:+ (x.state n).limits t ∧ ls.length = calls.length ∧
          some (d, due) ∈ ls ∧ due ≤ (x.state n).now) ∧
    -- A configured duration of zero means no limit, and any other one is the limit; whole milliseconds are what
    -- they are.
    (∀ d : Duration, (d.limit? = none ↔ d = .zero) ∧ ∀ d', d.limit? = some d' → d' = d) ∧
    (∀ config : Config, config.hookLimit? = none ↔ config.hookTimeout = .zero) ∧
    ∀ millis, (Duration.ofMillis millis).ceilMillis = millis := by
  have hspans : x.Yields t i callee limit next calls passes (c.lapse.within limit) :=
    .call htime hkeeps And.left ⟨fun tr callee' limit' hasks => hdoes.isFounded hasks⟩ hk (.inl rfl)
      (fun k passes' h => .inr ⟨passes', h⟩) fun m hm => Execution.body_spans htime hkeeps id hdoes hm
  refine ⟨fun T o hlapse hlimit => ?_, fun d hlimit houtlasts => ?_, fun hlimit hnever => ?_,
    fun n k k' passes' hcore hlive hinside hnext hcut => Execution.cut_cases hcore hlive hinside hnext hcut,
    fun d => ⟨Duration.limit?_eq_none_iff, fun d' h => (Duration.limit?_eq_some_iff.1 h).2.symm⟩,
    fun config => Duration.limit?_eq_none_iff, Duration.ceilMillis_ofMillis⟩
  · rwa [hlapse, Lapse.within_of_le hlimit] at hspans
  · subst hlimit
    rwa [Lapse.within_of_outlasts houtlasts] at hspans
  · subst hlimit
    rwa [hnever] at hspans

/-- Listener 2 calls listener 3, which never comes to an end, with a limit of 100 ms, then sleeps for 150 ms, and
reports what it has been told. -/
def World.patiently : World .bare where
  cast := .sample
  job _ := .done (.ok ())
  body
    | .prepare 2 => .perform (.call (.prepare 3) (some (.ofMillis 100))) fun o =>
        .perform (.sleep 150) fun _ => .done o
    | .prepare 3 => .perform .hang nofun
    | _ => .done (.ok ())

/-- What listener 2 does with its time. -/
def Chore.patiently : Chore :=
  .calls (some (.ofMillis 100)) .hangs fun o => .sleeps 150 (.ends o)

theorem World.patiently_does : World.patiently.Does (World.patiently.body (.prepare 2)) .patiently :=
  .calls (.hangs _) fun o => .sleeps 150 (.ends o)

/-- What the main task does once it has been told twice. -/
def Program.toldTwice (_ : Outcome) : Program .bare Outcome := .perform .hang nofun

/-- What the main task does once it has been told: it calls listener 2 again, with a limit of 249 ms. -/
def Program.toldOnce (_ : Outcome) : Program .bare Outcome :=
  .perform (.call (.prepare 2) (some (.ofMillis 249))) .toldTwice

open Move in
/-- The main task calls listener 2 with a limit of 250 ms, and then with one of 249 ms.  It goes on whenever it
can, and otherwise the clock moves. -/
def Machine.Execution.impatient : Execution World.patiently :=
  .directed _ 0 (.perform (.call (.prepare 2) (some (.ofMillis 250))) .toldOnce) ()
    [step 0, step 0, step 0, park 0, tick, step 0, step 0, park 0, tick, step 0, step 0, step 0, step 0, step 0, park 0,
      tick, step 0, step 0, park 0, tick, step 0, step 0]

open Execution in
/-- With a limit of 250 ms listener 2 comes to its end in time, and reports the limit of listener 3; with one of
249 ms it is given up. -/
theorem guarded_call_yields_outcome_or_limit_patiently :
    Chore.patiently.lapse = some (250, .error (.timedOut (.ofMillis 100))) ∧
    (∃ n, (impatient.state n).now = 250 ∧
      (impatient.state n).core 0 = some ⟨.running (.toldOnce (.error (.timedOut (.ofMillis 100)))), [], []⟩) ∧
    ∃ n, (impatient.state n).now = 499 ∧
      (impatient.state n).core 0 = some ⟨.running (.toldTwice (.error (.timedOut (.ofMillis 249)))), [], []⟩ := by
  have hclock : (impatient.state 23).tick = none := rfl
  have htime : impatient.KeepsTime 0 := directed_keepsTime hclock (by decide +kernel)
  have hlive : impatient.Attends 0 ∧ impatient.Wakes 0 :=
    ⟨directed_attends hclock rfl rfl rfl, directed_wakes hclock rfl rfl⟩
  have hwithin : ∀ n, n ≤ 23 → 1 ≤ n → ((impatient.state n).core 0).any (Core.isWithin 0) = true := by
    decide +kernel
  have huncut : ∀ i j, 1 ≤ i → impatient.Uncut 0 0 i j := fun i j hi =>
    (directed_uncut hclock hwithin (by decide) j).tail hi
  have hlapse : Chore.patiently.lapse = some (250, .error (.timedOut (.ofMillis 100))) := rfl
  refine ⟨hlapse, ?_, ?_⟩
  · have hcall := guarded_call_yields_outcome_or_limit impatient htime (directed_keepsLimits 0)
      World.patiently_does (rfl : (impatient.state 1).core 0 = some ⟨.running (.perform (.call (.prepare 2)
        (some (.ofMillis 250))) .toldOnce), [], []⟩)
    have hown := hcall.1 250 _ hlapse fun d hd => by
      cases hd
      decide
    obtain ⟨n, k, -, hk, hnow, rfl⟩ := hown.comes hlive (fun j => huncut 1 j (Nat.le_refl 1)) 250 _ rfl
    exact ⟨n, hnow, hk⟩
  · have hcall := guarded_call_yields_outcome_or_limit impatient htime (directed_keepsLimits 0)
      World.patiently_does (rfl : (impatient.state 12).core 0 = some ⟨.running (.perform (.call (.prepare 2)
        (some (.ofMillis 249))) .toldTwice), [], []⟩)
    have hlimit := hcall.2.1 (.ofMillis 249) rfl fun T o h => by
      rw [hlapse] at h
      cases h
      decide
    obtain ⟨n, k, -, hk, hnow, rfl⟩ := hlimit.comes hlive (fun j => huncut 12 j (by decide)) _ _ rfl
    exact ⟨n, hnow, hk⟩

end Orchestra
