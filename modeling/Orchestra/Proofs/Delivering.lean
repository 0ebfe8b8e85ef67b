import Orchestra.Proofs.Following
import Orchestra.Publishing

/-!
# Deliveries

* `Bus.Publishes`, `Bus.Registers` — the programs that deliver an event, and those that change the
  listeners, with what comes after them;
* `Bus.meant` — whom a delivery calls, given the listeners;
* `Execution.look_outside` — a task that is in no delivery on a bus finds none, and goes on without;
* `Execution.Delivers` — how far a delivery has come: it has not begun, it is in progress, or it is over;
* `Execution.publish_followed` — a delivery that is not cut off calls those that are meant among the
  listeners it began with, and nobody changes these meanwhile;
* `Execution.Enrols`, `Execution.register_followed` — how far a change has come, and what it answers.
-/

namespace Orchestra

variable {A : Application}

/-! ### Programs -/

theorem Delivery.attempts_failed (d : Delivery) (l : String) (e : HookFailure) :
    (d.failed l e).attempts = d.attempts + 1 := by
  rw [attempts, failed, List.length_append]
  rfl

theorem Delivery.attempts_handled (d : Delivery) : d.handled.attempts = d.attempts + 1 :=
  Nat.add_right_comm _ _ _

namespace Bus

/-- A program delivers an event and then goes on with what became of it. -/
inductive Publishes (cast : Cast) (b : BusId) (event : Event) (targets : Option TargetSet) :
    Program A Outcome → (Delivery → Program A Outcome) → Prop where
  | emit (next : Delivery → Program A Outcome) :
      Publishes cast b event targets (publish cast b event targets >>= next) next
  | dispatch {key : EventKey} {as : Arguments}
      (next : Except DispatchFailure Delivery → Program A Outcome) :
      (cast.catalogue b).eventFor key as = .ok event →
      Publishes cast b event targets (dispatch cast b key as targets >>= next) fun d => next (.ok d)

/-- A program changes the listeners and then goes on with whether that made a difference. -/
inductive Registers (cast : Cast) (b : BusId) :
    Edit → Program A Outcome → (Bool → Program A Outcome) → Prop where
  | register (l : ListenerId) (next : Bool → Program A Outcome) :
      Registers cast b (.add l) (register cast b l >>= next) next
  | unregister (l : ListenerId) (next : Bool → Program A Outcome) :
      Registers cast b (.remove l) (unregister cast b l >>= next) next

/-- Whom a delivery calls, given the listeners. -/
def meant (cast : Cast) (event : Event) (targets : Option TargetSet) (set : List ListenerId) :
    List Callee :=
  (set.filter (isMeant cast targets)).map fun l => .onEvent l event

/-- What a delivery goes on with once it has its listeners. -/
def deliverThen (cast : Cast) (b : BusId) (event : Event) (targets : Option TargetSet)
    (next : Delivery → Program A Outcome) (set : List ListenerId) : Program A Outcome :=
  (deliverTo cast b event (set.filter (isMeant cast targets)) {}).bind fun d =>
    .perform .endDelivery fun _ => (noteUnmatched event targets d).bind fun _ => next d

variable {cast : Cast} {b : BusId} {event : Event} {targets : Option TargetSet}

theorem publish_bind (next : Delivery → Program A Outcome) :
    ∃ next', (publish cast b event targets >>= next) = .perform (.enclosing b) next' ∧
      next' none = .perform (.beginDelivery b) (deliverThen cast b event targets next) ∧
      ∀ set, next' (some set)
        = (deliverTo cast b event (set.filter (isMeant cast targets)) {}).bind next := by
  refine ⟨_, rfl, ?_, fun set => rfl⟩
  show Program.perform (.beginDelivery b) (fun set => ((deliver cast b set event targets).bind
    fun d => .perform .endDelivery fun _ =>
      (noteUnmatched event targets d).bind fun _ => .done d).bind next) = _
  congr 1
  funext set
  rw [Program.bind_assoc, deliverThen, deliver]
  congr 1
  funext d
  rw [Program.bind]
  congr 1
  funext _
  exact Program.bind_assoc _ _ _

theorem Publishes.program {p : Program A Outcome} {next : Delivery → Program A Outcome}
    (h : Publishes cast b event targets p next) :
    ∃ next', p = .perform (.enclosing b) next' ∧
      next' none = .perform (.beginDelivery b) (deliverThen cast b event targets next) ∧
      ∀ set, next' (some set)
        = (deliverTo cast b event (set.filter (isMeant cast targets)) {}).bind next := by
  cases h with
  | emit next => exact publish_bind next
  | @dispatch key as next hevent =>
    have hpublish : (Bus.dispatch cast b key as targets >>= next)
        = publish cast b event targets >>= fun d => next (.ok d) := by
      rw [Bus.dispatch, hevent]
      exact Program.bind_assoc _ _ _
    rw [hpublish]
    exact publish_bind fun d => next (.ok d)

theorem deliverTo_cons (cast : Cast) (b : BusId) (event : Event) (l : ListenerId)
    (rest : List ListenerId) (d : Delivery) (next : Delivery → Program A Outcome) :
    ∃ next', (deliverTo cast b event (l :: rest) d).bind next
        = .perform (.call (.onEvent l event) (cast.listenerLimit b)) next' ∧
      next' (.ok ()) = (deliverTo cast b event rest d.handled).bind next ∧
      ∀ e, next' (.error e) = .perform (.record (failureRecord cast event l e))
        fun _ => (deliverTo cast b event rest (d.failed (cast.name l) e)).bind next :=
  ⟨_, rfl, rfl, fun _ => rfl⟩

theorem noteUnmatched_bind (event : Event) (targets : Option TargetSet) (d : Delivery)
    (p : Program A Outcome) :
    ((noteUnmatched event targets d).bind fun _ => p) = p ∨
      ∃ r, ((noteUnmatched event targets d).bind fun _ => p) = .perform (.record r) fun _ => p := by
  unfold noteUnmatched
  split
  · split
    · exact .inr ⟨_, rfl⟩
    · exact .inl rfl
  · exact .inl rfl

theorem Registers.program {e : Edit} {p : Program A Outcome} {next : Bool → Program A Outcome}
    (h : Registers cast b e p next) :
    ∃ next', p = .perform (.edit b e) next' ∧ next' false = next false ∧
      ∃ r, next' true = .perform (.record r) fun _ => next true := by
  cases h with
  | register l next => exact ⟨_, rfl, rfl, _, rfl⟩
  | unregister l next => exact ⟨_, rfl, rfl, _, rfl⟩

end Bus

namespace Machine

/-- A task is about to begin a delivery on a bus. -/
def Doing.awaitsDelivery (b : BusId) : Doing A → Prop
  | running (.perform (.enclosing b') _) => b' = b
  | running (.perform (.beginDelivery b') _) => b' = b
  | waiting (.beginning b' _) => b' = b
  | _ => False

/-- A task is about to change the listeners of a bus. -/
def Doing.awaitsEdit (b : BusId) (e : Edit) : Doing A → Prop
  | running (.perform (.edit b' e') _) => b' = b ∧ e' = e
  | waiting (.editing b' e' _) => b' = b ∧ e' = e
  | waiting (.replacing b' e' _ _) => b' = b ∧ e' = e
  | _ => False

namespace Execution

variable {w : World A}

/-- With the step after `m` steps task `t` begins a delivery: it has been granted the lock, and it holds
the listeners of the moment. -/
structure Begins (x : Execution w) (b : BusId) (t : TaskId) (calls : Calls A) (passes : List Pass)
    (m : Nat) : Prop where
  turn : x.turn m = some t
  granted : ∃ bs, (x.state m).bus b = some bs ∧ ⟨t, .read⟩ ∈ bs.lock.holders
  after : ∃ p, (x.state (m + 1)).core t
    = some ⟨.running p, calls, ⟨b, x.listeners b m⟩ :: passes⟩

/-- Nobody changes the listeners of a bus with the steps after `m` to `n` steps. -/
def Undisturbed (x : Execution w) (b : BusId) (m n : Nat) : Prop :=
  ∀ l, m ≤ l → l ≤ n → x.edit b l = none

/-- After `n` steps task `t` goes on with a program, or does so once it has made a record, which it has
not yet after `j` steps. -/
def GoesOn (x : Execution w) (t : TaskId) (calls : Calls A) (passes : List Pass)
    (p : Program A Outcome) (n j : Nat) : Prop :=
  (x.state n).core t = some ⟨.running p, calls, passes⟩ ∨
    n = j ∧ ∃ r, (x.state n).core t = some ⟨.running (.perform (.record r) fun _ => p), calls, passes⟩

variable {x : Execution w} {t : TaskId} {i j m n : Nat} {calls : Calls A} {passes : List Pass}
  {b : BusId} {cast : Cast} {event : Event} {targets : Option TargetSet}

/-- **Listeners are called one after another**, whatever they do; a call that is in progress is the last
so far. -/
theorem deliverTo_followed {next : Delivery → Program A Outcome} (set : List ListenerId)
    {d : Delivery} (huncut : x.Uncut t calls.length i j) (hij : i ≤ j)
    (hk : (x.state i).core t
      = some ⟨.running ((Bus.deliverTo cast b event set d).bind next), calls, passes⟩) :
    (∃ callees, callees <+: set.map (fun l => .onEvent l event) ∧
        x.Spends t calls.length passes callees i j) ∨
      ∃ n d', n ≤ j ∧ (x.state n).core t = some ⟨.running (next d'), calls, passes⟩ ∧
        x.Spends t calls.length passes (set.map fun l => .onEvent l event) i n ∧
        d'.attempts = d.attempts + set.length := by
  induction set generalizing i d with
  | nil =>
    refine .inr ⟨i, d, hij, hk, ⟨Nat.le_refl i, heard_self i, fun p hp => ?_⟩, rfl⟩
    exact Holds.of_core hk hp
  | cons l rest ih =>
    obtain ⟨next', hcall, hok, herror⟩ := Bus.deliverTo_cons cast b event l rest d next
    rw [hcall] at hk
    rcases call_followed huncut hij hk with ⟨callees, hprefix, hspends⟩ | ⟨r, o, hr, hback, hspends⟩
    · exact .inl ⟨callees, hprefix.trans ⟨_, rfl⟩, hspends⟩
    · -- The outcome is recorded if it is an error, and in any case the rest is up next.
      have hrest : x.Spends t calls.length passes [] r j ∨ ∃ n d₁, n ≤ j ∧
          (x.state n).core t
            = some ⟨.running ((Bus.deliverTo cast b event rest d₁).bind next), calls, passes⟩ ∧
          x.Spends t calls.length passes [] r n ∧ d₁.attempts = d.attempts + 1 := by
        cases o with
        | ok =>
          rw [hok] at hback
          refine .inr ⟨r, d.handled, hr, hback, ⟨Nat.le_refl r, heard_self r, fun p hp => ?_⟩,
            d.attempts_handled⟩
          exact Holds.of_core hback hp
        | error e =>
          rw [herror] at hback
          rcases record_followed (huncut.tail hspends.le) hr hback with
            ⟨-, hpending⟩ | ⟨n, hn, hback', hspends'⟩
          · exact .inl hpending
          · exact .inr ⟨n, d.failed (cast.name l) e, hn, hback', hspends', d.attempts_failed _ e⟩
      rcases hrest with hpending | ⟨n, d₁, hn, hnext, hspends', hattempts⟩
      · exact .inl ⟨_, ⟨_, rfl⟩, hspends.trans hpending⟩
      · have hbegun := hspends.trans hspends'
        rcases ih (huncut.tail hbegun.le) hn hnext with
          ⟨callees, hprefix, hmore⟩ | ⟨n', d', hn', hdone, hmore, hattempts'⟩
        · exact .inl ⟨_, (List.prefix_append_right_inj _).2 hprefix, hbegun.trans hmore⟩
        · refine .inr ⟨n', d', hn', hdone, hbegun.trans hmore, ?_⟩
          rw [hattempts', hattempts, List.length_cons]
          omega

/-- How far a delivery has come after `j` steps that task `t` was up to make after `i` steps, from within
`calls` and deliveries `passes`, before going on with `next`. -/
inductive Delivers (x : Execution w) (cast : Cast) (b : BusId) (event : Event)
    (targets : Option TargetSet) (t : TaskId) (calls : Calls A) (passes : List Pass)
    (next : Delivery → Program A Outcome) (i j : Nat) : Prop where
  /-- It has not begun, and nobody has been called. -/
  | waits (doing : Doing A) : (x.state j).core t = some ⟨doing, calls, passes⟩ →
      doing.awaitsDelivery b → x.heard t calls.length i j = [] →
      Delivers x cast b event targets t calls passes next i j
  /-- It began after `m` steps and is in progress: some of those that are meant have been called. -/
  | continues (m : Nat) : i ≤ m → m < j → x.Begins b t calls passes m → x.Undisturbed b m j →
      x.Holds t ⟨b, x.listeners b m⟩ (m + 1) j →
      x.heard t calls.length i j <+: Bus.meant cast event targets (x.listeners b m) →
      Delivers x cast b event targets t calls passes next i j
  /-- It began after `m` steps and ended with the step after `f` steps, and all of those that are meant
  have been called in between; the task has gone on after `n` steps. -/
  | returns (m f n : Nat) (d : Delivery) : i ≤ m → m < f → f < n → n ≤ j →
      x.Begins b t calls passes m → x.Undisturbed b m f →
      x.heard t calls.length m f = Bus.meant cast event targets (x.listeners b m) →
      x.heard t calls.length i n = Bus.meant cast event targets (x.listeners b m) →
      (∀ l, (∀ l', l' < n → x.edit b l' ≠ some (.add l)) →
        .onEvent l event ∉ x.heard t calls.length i n) →
      d.attempts = (Bus.meant cast event targets (x.listeners b m)).length →
      x.GoesOn t calls passes (next d) n j →
      Delivers x cast b event targets t calls passes next i j

theorem not_mem_meant {set : List ListenerId} {l : ListenerId} (hl : l ∉ set) :
    Callee.onEvent l event ∉ Bus.meant cast event targets set := by
  intro hmem
  obtain ⟨l', hl', heq⟩ := List.mem_map.1 hmem
  cases heq
  exact hl (List.mem_filter.1 hl').1

/-- A delivery in progress keeps its listeners from being changed. -/
theorem undisturbed_of_holds {set : List ListenerId} (hbegin : x.edit b m = none)
    (h : x.Holds t ⟨b, set⟩ (m + 1) n) : x.Undisturbed b m n := by
  intro l hm hn
  rcases Nat.lt_or_eq_of_le hm with hm | rfl
  · obtain ⟨k, hk, hp⟩ := h l hm hn
    exact edit_eq_none_of_pass hk hp rfl
  · exact hbegin

/-- What comes after a delivery: perhaps a record, and then the rest of the program. -/
theorem note_followed {d : Delivery} {p : Program A Outcome}
    (huncut : x.Uncut t calls.length i j) (hij : i ≤ j)
    (hk : (x.state i).core t
      = some ⟨.running ((Bus.noteUnmatched event targets d).bind fun _ => p), calls, passes⟩) :
    ∃ n, i ≤ n ∧ n ≤ j ∧ x.heard t calls.length i n = [] ∧ x.GoesOn t calls passes p n j := by
  rcases Bus.noteUnmatched_bind event targets d p with hnote | ⟨r, hnote⟩
  · rw [hnote] at hk
    exact ⟨i, Nat.le_refl i, hij, heard_self i, .inl hk⟩
  · rw [hnote] at hk
    rcases record_followed huncut hij hk with ⟨hpending, hspends⟩ | ⟨n, hn, hnext, hspends⟩
    · exact ⟨j, hij, Nat.le_refl j, hspends.heard, .inr ⟨rfl, r, hpending⟩⟩
    · exact ⟨n, hspends.le, hn, hspends.heard, .inl hnext⟩

/-- A delivery followed from its beginning on. -/
theorem begun_followed {next : Delivery → Program A Outcome}
    (huncut : x.Uncut t calls.length (m + 1) j) (hi : i ≤ m) (hm : m < j)
    (hbegins : x.Begins b t calls passes m) (hedit : x.edit b m = none)
    (hbefore : x.heard t calls.length i (m + 1) = []) (hdepth : depthOf calls ≤ passes.length)
    (hk : (x.state (m + 1)).core t
      = some ⟨.running (Bus.deliverThen cast b event targets next (x.listeners b m)), calls,
        ⟨b, x.listeners b m⟩ :: passes⟩) :
    x.Delivers cast b event targets t calls passes next i j := by
  have hnone : x.heard t calls.length m (m + 1) = [] := by
    rw [heard_trans hi (Nat.le_succ m)] at hbefore
    exact (List.append_eq_nil_iff.1 hbefore).2
  rcases deliverTo_followed ((x.listeners b m).filter (Bus.isMeant cast targets)) huncut hm hk with
    ⟨callees, hprefix, hspends⟩ | ⟨r, d, hr, hback, hspends, hattempts⟩
  · have hholds := hspends.holds _ List.mem_cons_self
    refine .continues m hi hm hbegins (undisturbed_of_holds hedit hholds) hholds ?_
    rw [heard_trans (Nat.le_succ_of_le hi) hm, hbefore, hspends.heard]
    exact hprefix
  · rcases first_turn (huncut.tail hspends.le) hr hback with
      hrests | ⟨f, k', hf, hacts⟩
    · have hall := hspends.trans (hrests.spends hr)
      have hholds := hall.holds _ List.mem_cons_self
      refine .continues m hi hm hbegins (undisturbed_of_holds hedit hholds) hholds ?_
      rw [heard_trans (Nat.le_succ_of_le hi) hm, hbefore, hall.heard, List.append_nil]
      exact List.prefix_refl _
    · obtain rfl := Step.of_endDelivery hacts.goesOn hacts.depth hdepth hacts.step
      have hall := hspends.trans (hacts.rests.spends hacts.le)
      have hholds := hall.holds _ List.mem_cons_self
      have hcall : x.callAt t calls.length f = none :=
        callAt_of_core hacts.before fun _ _ _ heq => (nomatch heq)
      have hend := hall.heard
      rw [List.append_nil] at hend
      obtain ⟨n, hn, hnj, hafter, hgoesOn⟩ := note_followed
        (huncut.tail (Nat.le_succ_of_le hall.le)) hf hacts.after
      have hthrough : x.heard t calls.length i n
          = Bus.meant cast event targets (x.listeners b m) := by
        rw [heard_trans (Nat.le_succ_of_le hi) (Nat.le_trans (Nat.le_succ_of_le hall.le) hn),
          heard_trans (Nat.le_succ_of_le hall.le) hn, heard_trans hall.le (Nat.le_succ f), heard_succ,
          hbefore, hend, hcall, hafter, Option.toList_none, List.append_nil, List.append_nil]
        rfl
      refine .returns m f n d hi hall.le hn hnj hbegins (undisturbed_of_holds hedit hholds) ?_
        hthrough (fun l hl => ?_) ?_ hgoesOn
      · rw [heard_trans (Nat.le_succ m) hall.le, hnone, hend]
        rfl
      · rw [hthrough]
        have hle := hall.le
        exact not_mem_meant (not_mem_of_unadded fun l' hl' => hl l' (by omega))
      · rw [hattempts, Bus.meant, List.length_map]
        exact Nat.zero_add _

/-- Whoever has asked to read the listeners of a bus, and does not wait any more, has been granted the
lock. -/
theorem granted_of_wanted {k : Core A} {bs : BusState} (hk : (x.state m).core t = some k)
    (hwanted : k.doing.wanted b .read = 1) (hbs : (x.state m).bus b = some bs)
    (hwaiting : bs.lock.isWaiting t = false) : ⟨t, .read⟩ ∈ bs.lock.holders := by
  refine ((x.sound m).kept b bs hbs).mem_holders_of_wanted ?_ (Lock.not_mem_queue hwaiting _)
  rw [wantedIn, hk, Option.map_some, Option.getD_some, Core.wanted, hwanted]
  exact Nat.zero_lt_one

theorem begins_of_beginning {next : List ListenerId → Program A Outcome} {bs : BusState}
    (hturn : x.turn m = some t)
    (hk : (x.state m).core t = some ⟨.waiting (.beginning b next), calls, passes⟩)
    (hbs : (x.state m).bus b = some bs) (hwaiting : bs.lock.isWaiting t = false)
    (hk' : (x.state (m + 1)).core t
      = some ⟨.running (next bs.listeners), calls, ⟨b, bs.listeners⟩ :: passes⟩) :
    x.Begins b t calls passes m := by
  have hset : x.listeners b m = bs.listeners := State.listenersOf_eq hbs
  have hgranted := granted_of_wanted hk (one_self b .read) hbs hwaiting
  exact ⟨hturn, ⟨bs, hbs, hgranted⟩, next bs.listeners, by rw [hk', hset]⟩

/-- Outside of any delivery on a bus a task that looks for one goes on without. -/
theorem look_outside {next : Option (List ListenerId) → Program A Outcome}
    (houtside : ∀ q ∈ passes, q.bus ≠ b) (hij : i ≤ j) (huncut : x.Uncut t calls.length i j)
    (hk : (x.state i).core t = some ⟨.running (.perform (.enclosing b) next), calls, passes⟩) :
    x.Rests t ⟨.running (.perform (.enclosing b) next), calls, passes⟩ i j ∨
      ∃ n, n < j ∧ x.Acts t calls.length ⟨.running (.perform (.enclosing b) next), calls, passes⟩ i n
        ⟨.running (next none), calls, passes⟩ := by
  have hfind : (passes.find? fun q => q.bus = b) = none :=
    List.find?_eq_none.2 fun q hq heq => houtside q hq (of_decide_eq_true heq)
  rcases first_turn huncut hij hk with hrests | ⟨n, k', hn, hacts⟩
  · exact .inl hrests
  · obtain rfl := Step.of_enclosing hacts.goesOn hacts.depth hacts.step
    rw [hfind, Option.map_none] at hacts
    exact .inr ⟨n, hn, hacts⟩

/-- **A delivery that is not cut off** calls those that are meant among the listeners it began with, in
their order, and nobody changes the listeners meanwhile. -/
theorem publish_followed {p : Program A Outcome} {next : Delivery → Program A Outcome}
    (hp : Bus.Publishes cast b event targets p next) (houtside : ∀ q ∈ passes, q.bus ≠ b)
    (hij : i ≤ j) (huncut : x.Uncut t calls.length i j)
    (hk : (x.state i).core t = some ⟨.running p, calls, passes⟩) :
    x.Delivers cast b event targets t calls passes next i j := by
  obtain ⟨next', rfl, hnone, -⟩ := hp.program
  have hdepth : depthOf calls ≤ passes.length := ((x.sound i).neat t _ hk).depthOf_le
  -- The task looks whether it is part of a delivery on this bus, which it is not.
  rcases look_outside houtside hij huncut hk with hrests | ⟨n₁, hn₁, hacts₁⟩
  · exact .waits _ (hrests.last hij) rfl (hrests.heard _)
  have hspends₁ := hacts₁.spends_nothing nofun fun _ hq => hq
  have hk₁ := hacts₁.after
  rw [hnone] at hk₁
  -- It asks for the lock.
  rcases first_turn (huncut.tail hspends₁.le) hn₁ hk₁ with
    hrests | ⟨n₂, k₂, hn₂, hacts₂⟩
  · exact .waits _ (hrests.last hn₁) rfl (hspends₁.trans (hrests.spends hn₁)).heard
  obtain rfl := Step.of_beginDelivery hacts₂.goesOn hacts₂.depth hacts₂.step
  have hspends₂ := hacts₂.spends_nothing nofun fun _ hq => hq
  have hasked := hspends₁.trans hspends₂
  -- It waits for the lock, and reads the listeners.
  rcases first_turn (huncut.tail hasked.le) hn₂ hacts₂.after with
    hrests | ⟨m, k₃, hm, hacts₃⟩
  · exact .waits _ (hrests.last hn₂) rfl (hasked.trans (hrests.spends hn₂)).heard
  obtain ⟨bs, hbs, hwaiting, rfl⟩ := Step.of_beginning hacts₃.goesOn hacts₃.depth hacts₃.step
  have hspends₃ := hacts₃.spends_nothing nofun fun _ hq => List.mem_cons_of_mem _ hq
  have hread := hasked.trans hspends₃
  have hset : x.listeners b m = bs.listeners := State.listenersOf_eq hbs
  have hbegins := begins_of_beginning hacts₃.turn hacts₃.before hbs hwaiting hacts₃.after
  have hk₃ := hacts₃.after
  rw [← hset] at hk₃
  have hedit : x.edit b m = none := edit_of_turn hacts₃.turn hacts₃.before hacts₃.after
  exact begun_followed (huncut.tail hread.le) (Nat.le_trans hasked.le hacts₃.le) hm hbegins hedit
    hread.heard hdepth hk₃

/-! ### Changes -/

/-- None of the steps of task `t` from `i` to `j` changes the listeners of a bus. -/
def Spares (x : Execution w) (b : BusId) (t : TaskId) (i j : Nat) : Prop :=
  ∀ n, i ≤ n → n < j → x.turn n = some t → x.edit b n = none

/-- How far a change has come after `j` steps that task `t` was up to make after `i` steps, from within
`calls` and deliveries `passes`, before going on with `next`. -/
inductive Enrols (x : Execution w) (b : BusId) (e : Edit) (t : TaskId) (calls : Calls A)
    (passes : List Pass) (next : Bool → Program A Outcome) (i j : Nat) : Prop where
  /-- It has not taken effect. -/
  | waits (doing : Doing A) : (x.state j).core t = some ⟨doing, calls, passes⟩ →
      doing.awaitsEdit b e → x.Spares b t i j → Enrols x b e t calls passes next i j
  /-- It took effect with the step after `m` steps, once, and the task has gone on after `n` steps with
  whether the listeners are others than before. -/
  | changes (m n : Nat) : i ≤ m → m < n → n ≤ j → x.Changes b m t e → x.Spares b t i m →
      x.Spares b t (m + 1) n →
      x.GoesOn t calls passes (next (decide (x.listeners b (m + 1) ≠ x.listeners b m))) n j →
      Enrols x b e t calls passes next i j

theorem Spares.trans (h : x.Spares b t i m) (h' : x.Spares b t m j) : x.Spares b t i j := by
  intro n hi hj hturn
  rcases Nat.lt_or_ge n m with hn | hn
  · exact h n hi hn hturn
  · exact h' n hn hj hturn

theorem Spares.refl (n : Nat) : x.Spares b t n n :=
  fun _ hl hl' _ => absurd hl' (Nat.not_lt_of_le hl)

theorem Rests.spares {k : Core A} (h : x.Rests t k i j) : x.Spares b t i j := by
  intro n hi hj hturn
  rw [edit_of_turn hturn (h.core n hi (Nat.le_of_lt hj)) (h.core (n + 1) (Nat.le_succ_of_le hi) hj)]
  cases hdoing : k.doing with
  | waiting wait => cases wait <;> rfl
  | _ => rfl

theorem Acts.spares {d : Nat} {k k' : Core A} (h : x.Acts t d k i n k')
    (hedits : k.doing.edits b k'.doing = none) : x.Spares b t i (n + 1) := by
  intro l hi hl hturn
  rcases Nat.lt_or_eq_of_le (Nat.le_of_lt_succ hl) with hl | rfl
  · exact h.rests.spares l hi hl hturn
  · rw [edit_of_turn hturn h.before h.after, hedits]

/-- **A change that is not cut off** takes effect once, alone with the listeners of the moment, and
answers whether they are others afterwards. -/
theorem register_followed {e : Edit} {p : Program A Outcome} {next : Bool → Program A Outcome}
    (hp : Bus.Registers cast b e p next) (hij : i ≤ j) (huncut : x.Uncut t calls.length i j)
    (hk : (x.state i).core t = some ⟨.running p, calls, passes⟩) :
    x.Enrols b e t calls passes next i j := by
  obtain ⟨next', rfl, hfalse, r, htrue⟩ := hp.program
  -- The task asks for the lock.
  rcases first_turn huncut hij hk with hrests | ⟨n₁, k₁, hn₁, hacts₁⟩
  · exact .waits _ (hrests.last hij) ⟨rfl, rfl⟩ hrests.spares
  obtain rfl := Step.of_edit hacts₁.goesOn hacts₁.depth hacts₁.step
  have hasked : x.Spares b t i (n₁ + 1) := hacts₁.spares rfl
  have huncut₁ := huncut.tail (Nat.le_succ_of_le hacts₁.le)
  -- It waits for the lock, and takes a copy of the listeners.
  rcases first_turn huncut₁ hn₁ hacts₁.after with hrests | ⟨n₂, k₂, hn₂, hacts₂⟩
  · exact .waits _ (hrests.last hn₁) ⟨rfl, rfl⟩ (hasked.trans hrests.spares)
  obtain ⟨copy, rfl⟩ := Step.of_editing hacts₂.goesOn hacts₂.depth hacts₂.step
  have hcopied := hasked.trans (hacts₂.spares (b := b) rfl)
  have huncut₂ := huncut₁.tail (Nat.le_succ_of_le hacts₂.le)
  -- It replaces the listeners.
  rcases first_turn huncut₂ hn₂ hacts₂.after with hrests | ⟨m, k₃, hm, hacts₃⟩
  · exact .waits _ (hrests.last hn₂) ⟨rfl, rfl⟩ (hcopied.trans hrests.spares)
  obtain rfl := Step.of_replacing hacts₃.goesOn hacts₃.depth hacts₃.step
  have hedit : x.edit b m = some e := by
    rw [edit_of_turn hacts₃.turn hacts₃.before hacts₃.after]
    exact if_pos rfl
  obtain ⟨u, hchanges⟩ := changes_of_edit hedit
  obtain rfl := Option.some.inj (hchanges.turn.symm.trans hacts₃.turn)
  have hbefore := hcopied.trans hacts₃.rests.spares
  have him : i ≤ m :=
    Nat.le_trans (Nat.le_succ_of_le hacts₁.le) (Nat.le_trans (Nat.le_succ_of_le hacts₂.le) hacts₃.le)
  obtain ⟨copy', next₀, calls', passes', hcore, hcore'⟩ := hchanges.answer
  cases hcore.symm.trans hacts₃.before
  -- It records what it has done, if it has made a difference.
  cases hanswer : decide (x.listeners b (m + 1) ≠ x.listeners b m) with
  | false =>
    rw [hanswer, hfalse] at hcore'
    refine .changes m (m + 1) him (Nat.lt_succ_self m) hm hchanges hbefore (Spares.refl _) (.inl ?_)
    rw [hanswer, hcore']
  | true =>
    rw [hanswer, htrue] at hcore'
    have huncut₃ := huncut₂.tail (Nat.le_succ_of_le hacts₃.le)
    rcases first_turn huncut₃ hm hcore' with hrests | ⟨n, k₄, hn, hacts₄⟩
    · refine .changes m j him hm (Nat.le_refl j) hchanges hbefore hrests.spares (.inr ⟨rfl, r, ?_⟩)
      rw [hanswer, hrests.last hm]
    · obtain rfl := Step.of_record hacts₄.goesOn hacts₄.depth hacts₄.step
      refine .changes m (n + 1) him (Nat.lt_succ_of_le (Nat.le_of_succ_le hacts₄.le)) hn hchanges
        hbefore (hacts₄.spares rfl) (.inl ?_)
      rw [hanswer, hacts₄.after]

end Execution

end Machine

end Orchestra
