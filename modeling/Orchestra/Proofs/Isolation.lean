import Orchestra.Proofs.Construction
import Orchestra.Proofs.Visiting

/-!
# A delivery isolates its listeners

* `World.replacing` — a world in which one listener does something else; `Program.Fails` — it panics, or hangs
  although it has a limit;
* `Execution.Visits.fate_of_fails` — the fate of such a listener;
* `Passage` — a task that delivers an event; `Passage.IsUnderway`, `Passage.Answers` — how far it has come;
* `delivery_isolates_listeners` — every listener that is meant is called once, whatever the others do, and the
  answer counts what has become of the calls of this delivery and of no other.
-/

namespace Orchestra

open Machine

variable {A : Application}

/-! ### Listeners that fail -/

/-- The world in which one listener does something else. -/
def World.replacing (w : World A) (l : ListenerId) (p : Program A Outcome) : World A :=
  { w with body := fun callee => match callee with
      | .onEvent l' _ => if l' = l then p else w.body callee
      | _ => w.body callee }

/-- A body that panics, or hangs within a limit; and what becomes of its call. -/
inductive Program.Fails (limit : Option Duration) : Program A Outcome → Fate → Prop where
  | panics (payload : Payload) (next : Empty → Program A Outcome) :
      Fails limit (.perform (.panic payload) next) (.panicked payload)
  | hangs {d : Duration} (next : Empty → Program A Outcome) : limit = some d →
      Fails limit (.perform .hang next) (.outlasted d)

theorem World.body_replacing (w : World A) (l : ListenerId) (p : Program A Outcome) (event : Event) :
    (w.replacing l p).body (.onEvent l event) = p :=
  if_pos rfl

/-- The first operation of a program without answers is the only one. -/
theorem Program.asks_of_empty {op op' : Op A} {next : op.Answer → Program A Outcome}
    {tr : List (Exchange A)} (hempty : op.Answer → False) (h : (Program.perform op next).Asks tr op') :
    op' = op := by
  obtain ⟨rest, hleads⟩ := h
  cases hleads with
  | start => rfl
  | perform x _ => exact (hempty x).elim

theorem Program.not_run_of_empty {op : Op A} {next : op.Answer → Program A Outcome}
    {tr : List (Exchange A)} {o : Outcome} (hempty : op.Answer → False) :
    ¬ (Program.perform op next).Run tr o := by
  intro hrun
  obtain ⟨x, -⟩ := run_perform_iff.1 hrun
  exact hempty x

/-- A call of a body that fails comes to an end. -/
theorem Program.Fails.closes {w : World A} {limit : Option Duration} {p : Program A Outcome} {f : Fate}
    {callee : Callee} (h : p.Fails limit f) (hbody : w.body callee = p) : w.Closes limit callee := by
  refine .intro (fun tr op hasks _ => ?_) fun tr callee' limit' hasks => ?_
  · rw [hbody] at hasks
    cases h with
    | panics payload next =>
      obtain rfl := asks_of_empty (fun x => Empty.elim x) hasks
      exact .inl ⟨trivial, fun _ _ hwait => hwait⟩
    | hangs next hlimit => exact .inr (hlimit ▸ rfl)
  · rw [hbody] at hasks
    cases h with
    | panics payload next => cases asks_of_empty (fun x => Empty.elim x) hasks
    | hangs next hlimit => cases asks_of_empty (fun x => Empty.elim x) hasks

namespace Machine.Execution

variable {w : World A} {x : Execution w} {t : TaskId} {calls : Calls A} {e : Errand} {v : Visit}

/-- With a visit the body of the listener begins. -/
theorem Visits.begun (h : x.Visits t calls e v) : ∃ f passes, (x.state (v.made + 1)).core t
    = some ⟨.running (w.body (e.call v.listener)), f :: calls, passes⟩ := by
  obtain ⟨next, hawaits, -⟩ := h.call
  obtain ⟨passes, hbefore⟩ := hawaits.before
  obtain ⟨k', hk', hended, hdepth⟩ := h.inside (v.made + 1) (Nat.le_refl _) h.made_lt
  obtain rfl := Step.of_call hended (Nat.le_of_succ_le hdepth) (step_of_turn hawaits.turn hbefore hk')
  exact ⟨_, passes, hk'⟩

/-- A listener whose body has nothing to go on with panics, or waits past the limit. -/
theorem Visits.fate_of_empty {op : Op A} {next : op.Answer → Program A Outcome}
    (h : x.Visits t calls e v) (hempty : op.Answer → False)
    (hbody : w.body (e.call v.listener) = .perform op next) :
    (∃ payload, op = .panic payload ∧ v.fate = .panicked payload) ∨
      ∃ d, v.fate = .outlasted d ∧ x.Outlasts t calls e.limit d v.made v.left := by
  have hexplains := h.explains
  cases hfate : v.fate with
  | returned =>
    rw [hfate] at hexplains
    obtain ⟨tr, -, -, -, hrun, -⟩ := hexplains
    exact absurd (hbody ▸ hrun) (Program.not_run_of_empty hempty)
  | reported err =>
    rw [hfate] at hexplains
    obtain ⟨tr, -, -, -, hrun, -⟩ := hexplains
    exact absurd (hbody ▸ hrun) (Program.not_run_of_empty hempty)
  | panicked payload =>
    rw [hfate] at hexplains
    obtain ⟨tr, -, -, -, -, hasks, -⟩ := hexplains
    exact .inl ⟨payload, (Program.asks_of_empty hempty (hbody ▸ hasks)).symm, rfl⟩
  | outlasted d =>
    rw [hfate] at hexplains
    exact .inr ⟨d, rfl, hexplains⟩

/-- Whoever panics with his first operation does not wait. -/
theorem Visits.not_outlasts {payload : Payload} {next : Empty → Program A Outcome} {d : Duration}
    (h : x.Visits t calls e v) (hbody : w.body (e.call v.listener) = .perform (.panic payload) next) :
    ¬ x.Outlasts t calls e.limit d v.made v.left := by
  rintro ⟨-, -, wait, inner, frame, passes', hwaits⟩
  obtain ⟨f, passes, hbegun⟩ := h.begun
  rw [hbody] at hbegun
  rcases first_turn h.inside h.made_lt hbegun with hrests | ⟨n, k', -, hacts⟩
  · cases (hrests.last h.made_lt).symm.trans hwaits
  · have hdepth := hacts.depth
    rw [(timed_of_turn hacts.turn hacts.before hacts.after).of_panic hacts.goesOn] at hdepth
    exact absurd hdepth (Nat.not_succ_le_self _)

/-- **What becomes of a listener that panics, or hangs within a limit.** -/
theorem Visits.fate_of_fails {p : Program A Outcome} {fate : Fate} (h : x.Visits t calls e v)
    (hfails : p.Fails e.limit fate) (hbody : w.body (e.call v.listener) = p) : v.fate = fate := by
  cases hfails with
  | panics payload next =>
    rcases h.fate_of_empty (fun x => Empty.elim x) hbody with ⟨payload', heq, hfate⟩ | ⟨d, -, houtlasts⟩
    · cases heq
      exact hfate
    · exact absurd houtlasts (h.not_outlasts hbody)
  | hangs next hlimit =>
    rcases h.fate_of_empty (fun x => Empty.elim x) hbody with ⟨payload', heq, -⟩ | ⟨d', hfate, hlimit', -⟩
    · cases heq
    · rw [hfate, Option.some.inj (hlimit'.symm.trans hlimit)]

/-! ### One delivery -/

/-- A task that is about to deliver an event after `start` steps. -/
structure Passage (x : Execution w) (e : Errand) where
  task : TaskId
  calls : Calls A
  passes : List Pass
  /-- What comes after the delivery. -/
  next : Delivery → Program A Outcome
  start : Nat
  begins : (x.state start).core task = some ⟨.running (e.program >>= next), calls, passes⟩
  /-- Nobody else changes the limits of the task, as the scheduler never does. -/
  keeps : x.KeepsLimits task

namespace Passage

variable (p : x.Passage e)

/-- Whom the delivery has called by the time `n` steps have been made. -/
def heard (n : Nat) : List Callee := x.heard p.task p.calls.length p.start n

/-- What those that have been called were handed. -/
def handed (n : Nat) : List (ListenerId × Event × Priority) := (p.heard n).filterMap Callee.handed

/-- The delivery is under way after `j` steps. -/
def IsUnderway (j : Nat) : Prop := x.Underway p.task p.calls e e.meant p.start j

/-- After `n` steps the delivery has made some visits, to everybody who is meant, and the task goes on with the
answer. -/
structure Answers (vs : List Visit) (d : Delivery) (n : Nat) : Prop where
  tour : x.Tours p.task p.calls e vs p.start n
  all : vs.map Visit.listener = e.meant
  counts : d = tally e.cast vs
  uncut : x.Uncut p.task p.calls.length p.start n
  after : ∃ passes, (x.state n).core p.task = some ⟨.running (p.next d), p.calls, passes⟩

/-- Nobody cuts the delivery off while it is under way. -/
def IsUncut : Prop :=
  ∀ j, p.start ≤ j → p.IsUnderway j → x.Uncut p.task p.calls.length p.start (j + 1)

variable {p} {vs : List Visit} {d : Delivery} {j n : Nat}

theorem onward_begins : (x.state p.start).core p.task
    = some ⟨.running (e.onward p.next e.meant {}), p.calls, p.passes⟩ :=
  p.begins

/-- A delivery that is not cut off is under way or has been answered. -/
theorem followed (huncut : x.Uncut p.task p.calls.length p.start j) (hj : p.start ≤ j) :
    p.IsUnderway j ∨ ∃ n vs d, n ≤ j ∧ p.Answers vs d n := by
  rcases deliverTo_visits p.keeps huncut hj p.onward_begins with
    hunderway | ⟨n, vs, passes, hn, htour, hall, hafter⟩
  · exact .inl hunderway
  · rw [tally_eq_foldl] at hafter
    exact .inr ⟨n, vs, _, hn, htour, hall, rfl, huncut.mono (Nat.le_refl _) hn, passes, hafter⟩

/-- A delivery is answered if it is not cut off and the calls of its listeners come to an end. -/
theorem answered (hattends : x.Attends p.task) (huncut : p.IsUncut)
    (hends : ∀ l ∈ e.meant, x.Ends p.task p.calls e l) : ∃ n vs d, p.Answers vs d n := by
  by_contra hnever
  have hunderway : ∀ j, p.start ≤ j → x.Uncut p.task p.calls.length p.start j → p.IsUnderway j := by
    intro j hj hj'
    rcases p.followed hj' hj with hunderway | ⟨n, vs, d, -, hanswers⟩
    · exact hunderway
    · exact absurd ⟨n, vs, d, hanswers⟩ hnever
  have hforever : ∀ j, p.start ≤ j → x.Uncut p.task p.calls.length p.start j := by
    intro j hj
    induction hj with
    | refl =>
      intro n hn hn'
      obtain rfl := Nat.le_antisymm hn hn'
      exact ⟨_, p.begins, nofun, Nat.le_refl _⟩
    | @step j hj ih => exact huncut j hj (hunderway j hj ih)
  have hall : ∀ n, x.Uncut p.task p.calls.length p.start n := fun n =>
    (hforever (max p.start n) (Nat.le_max_left _ _)).mono (Nat.le_refl _) (Nat.le_max_right _ _)
  obtain ⟨n, vs, passes, htour, hmeant, hafter⟩ :=
    deliverTo_ends p.keeps hattends hall hends p.onward_begins
  rw [tally_eq_foldl] at hafter
  exact hnever ⟨n, vs, _, htour, hmeant, rfl, hall n, passes, hafter⟩

/-- A delivery that has been answered has called those that are meant. -/
theorem Answers.heard_eq (h : p.Answers vs d n) : p.heard n = e.meant.map e.call := by
  rw [Passage.heard, h.tour.heard, h.all]

/-- It has handed them the event and its priority. -/
theorem Answers.handed_eq (h : p.Answers vs d n) : p.handed n = e.handed := by
  rw [Passage.handed, h.heard_eq, List.filterMap_map]
  show e.meant.filterMap (some ∘ fun l => (l, e.event, e.event.priority)) = e.handed
  rw [List.filterMap_eq_map, Errand.handed]

/-- While another delivery is under way inside of a call, this one calls nobody. -/
theorem heard_of_deeper {e' : Errand} {q : x.Passage e'} (htask : q.task = p.task)
    (hdeeper : p.calls.length < q.calls.length) (h : q.Answers vs d n) :
    x.heard p.task p.calls.length q.start n = [] :=
  heard_eq_nil fun _ hm hmn => htask ▸ callAt_inside h.uncut hdeeper hm (Nat.le_of_lt hmn)

/-- No call is a visit of two deliveries that are made from within different calls. -/
theorem visits_disjoint {e' : Errand} {q : x.Passage e'} {vs' : List Visit} {d' : Delivery} {n' : Nat}
    (htask : q.task = p.task) (hlevel : q.calls.length ≠ p.calls.length) (h : p.Answers vs d n)
    (h' : q.Answers vs' d' n') : ∀ v ∈ vs, ∀ v' ∈ vs', v.made ≠ v'.made := by
  intro v hv v' hv' heq
  obtain ⟨next, hawaits, -⟩ := (h.tour.visits hv).call
  obtain ⟨next', hawaits', -⟩ := (h'.tour.visits hv').call
  obtain ⟨passes, hk⟩ := hawaits.before
  obtain ⟨passes', hk'⟩ := hawaits'.before
  rw [htask, ← heq] at hk'
  exact hlevel (congrArg (fun k => k.calls.length) (Option.some.inj (hk'.symm.trans hk)))

end Passage

end Machine.Execution

/-! ### The main result -/

/-- **A delivery isolates its listeners and counts them exactly**, whatever they do: return, panic, outlast their
limit, or deliver further events. -/
theorem delivery_isolates_listeners {w : World A} {x : Execution w} {e : Errand} (p : x.Passage e) :
    -- As long as it is not cut off, a delivery is under way, and has called the first of those that are meant
    -- in their order, or it has been answered.
    (∀ j, p.start ≤ j → x.Uncut p.task p.calls.length p.start j →
      p.IsUnderway j ∧ p.heard j <+: e.meant.map e.call ∨ ∃ n vs d, n ≤ j ∧ p.Answers vs d n) ∧
    -- It is answered if every call of a listener comes to an end.
    (x.Attends p.task → p.IsUncut → (∀ l ∈ e.meant, x.Ends p.task p.calls e l) →
      ∃ n vs d, p.Answers vs d n) ∧
    -- When it has been answered,
    (∀ n vs d, p.Answers vs d n →
      -- those of the listeners whose types are among the targets, or all of them,
      (∀ l, l ∈ e.meant ↔ l ∈ e.set ∧ ∀ ts, e.targets = some ts → e.cast.type l ∈ ts.types) ∧
      e.meant.Sublist e.set ∧ e.meant.Nodup ∧
      -- have been called one after another, each of them once, and have been handed the event and its priority;
      p.heard n = e.meant.map e.call ∧ p.handed n = e.handed ∧
      -- the calls are the visits, each of which has its own fate,
      vs.map Visit.listener = e.meant ∧ (∀ v ∈ vs, x.Visits p.task p.calls e v) ∧
      -- and the answer counts those that have returned and lists the failures of all others in order.
      d.delivered = (vs.filter fun v => v.fate = .returned).length ∧
      d.failures = vs.filterMap (Visit.mishap? e.cast) ∧
      d.delivered + d.failures.length = e.meant.length) ∧
    -- A delivery inside of one of the calls counts its own visits, and none of them is counted outside.
    (∀ (e' : Errand) (q : x.Passage e') n vs d n' vs' d', p.Answers vs d n → q.Answers vs' d' n' →
      q.task = p.task → p.calls.length < q.calls.length →
      x.heard p.task p.calls.length q.start n' = [] ∧ ∀ v ∈ vs, ∀ v' ∈ vs', v.made ≠ v'.made) ∧
    -- Where a listener panics or hangs within a limit instead, the same listeners are called, and are handed the
    -- same.
    (∀ l body fate, body.Fails e.limit fate → ∀ (y : Execution (w.replacing l body)) (q : y.Passage e),
      y.Attends q.task → q.IsUncut → (∀ l' ∈ e.meant, l' ≠ l → y.Ends q.task q.calls e l') →
      ∃ n vs d, q.Answers vs d n ∧ (∀ v ∈ vs, v.listener = l → v.fate = fate) ∧
        ∀ n' vs' d', p.Answers vs' d' n' → q.heard n = p.heard n' ∧ q.handed n = p.handed n') := by
  refine ⟨fun j hj huncut => ?_, fun hattends huncut hends => ?_, fun n vs d h => ?_, ?_, ?_⟩
  · rcases p.followed huncut hj with hunderway | hanswered
    · exact .inl ⟨hunderway, hunderway.heard huncut⟩
    · exact .inr hanswered
  · exact p.answered hattends huncut hends
  · refine ⟨fun l => Errand.mem_meant, List.filter_sublist, e.distinct.filter _, h.heard_eq, h.handed_eq, h.all,
      fun v => h.tour.visits, ?_, ?_, ?_⟩
    · rw [h.counts, tally, List.countP_eq_length_filter]
    · rw [h.counts, tally]
    · have hattempts := attempts_tally e.cast vs
      rwa [← h.counts, Delivery.attempts, ← List.length_map Visit.listener, h.all] at hattempts
  · intro e' q n vs d n' vs' d' h h' htask hdeeper
    exact ⟨Execution.Passage.heard_of_deeper htask hdeeper h',
      Execution.Passage.visits_disjoint htask (Nat.ne_of_gt hdeeper) h h'⟩
  · intro l body fate hfails y q hattends huncut hends
    have hbody : (w.replacing l body).body (e.call l) = body := w.body_replacing l body e.event
    obtain ⟨n, vs, d, h⟩ := q.answered hattends huncut fun l' hl' => by
      by_cases hl : l' = l
      · subst hl
        exact .inl (hfails.closes hbody)
      · exact hends l' hl' hl
    refine ⟨n, vs, d, h, fun v hv hvl => ?_, fun n' vs' d' h' => ?_⟩
    · exact (h.tour.visits hv).fate_of_fails hfails (hvl ▸ hbody)
    · rw [h.heard_eq, h'.heard_eq, h.handed_eq, h'.handed_eq]
      exact ⟨rfl, rfl⟩

/-- Listeners may take 5 ms. -/
def Cast.hasty : Cast := { Cast.sample with listenerLimit := fun _ => some (.ofMillis 5) }

/-- A request to shut down, and another event. -/
def Event.request : Event := .shutdownRequested "test"
def Event.aside : Event := .phaseCompleted .launch 3

/-- Of the listeners 2, 3 and 4 the first panics; at the request the second hangs, and the last publishes another
event. -/
def World.mixed : World .bare where
  cast := .hasty
  body
    | .onEvent 2 _ => .perform (.panic "boom") nofun
    | .onEvent 3 (.shutdownRequested _) => .perform .hang nofun
    | .onEvent 4 (.shutdownRequested _) => Bus.emit .hasty 0 .aside >>= fun _ => .done (.ok ())
    | _ => .done (.ok ())
  job _ := .done (.ok ())

/-- The last listener panics instead. -/
abbrev World.grim : World .bare := World.mixed.replacing 4 (.perform (.panic "gone") nofun)

/-- Three listeners are registered, and a shutdown is requested. -/
def Program.mixed : Program .bare Outcome := do
  let _ ← Bus.register .hasty 0 2
  let _ ← Bus.register .hasty 0 3
  let _ ← Bus.register .hasty 0 4
  let _ ← Bus.emit .hasty 0 .request
  .perform .hang nofun

/-- What publishing the request does after the delivery. -/
def Delivery.noted (d : Delivery) : Program Application.bare Delivery := do
  .ask .endDelivery
  Bus.noteUnmatched .request none d
  return d

/-- An event for the three listeners. -/
def Errand.hasty (event : Event) : Errand := ⟨.hasty, 0, [2, 3, 4], by decide, event, none⟩

namespace Machine.Execution

/-- The main task takes its steps until the second listener hangs, the clock moves, and the main task takes the rest
of its steps. -/
def mixed (w : World .bare) (rest : Nat) : Execution w :=
  .directed w 1 Program.mixed ()
    (List.replicate 20 (.step 0) ++ [.park 0, .tick] ++ List.replicate rest (.step 0))

/-- The delivery of the request. -/
def mixedPassage (w : World .bare) (rest : Nat)
    (h : ((mixed w rest).state 16).core 0 = some ⟨.running
      (((Errand.hasty .request).program >>= Delivery.noted) >>= fun _ => .perform .hang nofun), [],
        [⟨0, [2, 3, 4]⟩]⟩) : (mixed w rest).Passage (.hasty .request) where
  task := 0
  calls := []
  passes := [⟨0, [2, 3, 4]⟩]
  next d := d.noted >>= fun _ => .perform .hang nofun
  start := 16
  begins := by rw [h, bind_assoc]
  keeps := directed_keepsLimits 0

/-- The delivery of the other event, from inside of a call. -/
def mixedNested : (mixed World.mixed 14).Passage (.hasty .aside) where
  task := 0
  calls := (((mixed World.mixed 14).state 27).core 0).elim [] Core.calls
  passes := [⟨0, [2, 3, 4]⟩]
  next _ := .done (.ok ())
  start := 27
  begins := rfl
  keeps := directed_keepsLimits 0

end Machine.Execution

open Execution in
set_option maxRecDepth 4000 in
/-- One of the listeners panics, one hangs, and one publishes another event, or panics as well: in both cases all of
them are called. -/
theorem delivery_isolates_listeners_mixed :
    ∃ (n n' m : Nat) (vs vs' us : List Visit) (d d' c : Delivery),
      (mixedPassage World.mixed 14 rfl).Answers vs d n ∧ d.delivered + d.failures.length = 3 ∧
      (mixedPassage World.mixed 14 rfl).handed n
        = [(2, .request, .high), (3, .request, .high), (4, .request, .high)] ∧
      mixedNested.Answers us c m ∧ (∀ v ∈ vs, ∀ u ∈ us, v.made ≠ u.made) ∧
      (mixedPassage World.grim 7 rfl).Answers vs' d' n' ∧
      (∀ v ∈ vs', v.listener = 4 → v.fate = .panicked "gone") ∧
      (mixedPassage World.grim 7 rfl).handed n' = (mixedPassage World.mixed 14 rfl).handed n := by
  have hclock : ((mixed World.mixed 14).state 37).tick = none := rfl
  have hwithin : ∀ n, n ≤ 37 → 16 ≤ n →
      (((mixed World.mixed 14).state n).core 0).any (Core.isWithin 0) = true := by decide +kernel
  have hclock' : ((mixed World.grim 7).state 30).tick = none := rfl
  have hwithin' : ∀ n, n ≤ 30 → 16 ≤ n →
      (((mixed World.grim 7).state n).core 0).any (Core.isWithin 0) = true := by decide +kernel
  have hinside : ∀ n, n ≤ 34 → 27 ≤ n →
      (((mixed World.mixed 14).state n).core 0).any (Core.isWithin 1) = true := by decide +kernel
  obtain ⟨-, hanswered, hanswers, hnests, hreplaced⟩ :=
    delivery_isolates_listeners (mixedPassage World.mixed 14 rfl)
  obtain ⟨n, vs, d, h⟩ := hanswered (directed_attends hclock rfl rfl rfl)
    (fun j _ _ => directed_uncut hclock hwithin (by decide) (j + 1))
    (fun l _ => directed_ends hclock rfl (Nat.le_refl 0))
  obtain ⟨-, -, -, -, hhanded, -, -, -, -, hcount⟩ := hanswers n vs d h
  -- When the last listener has come to the end of its body, the delivery inside of it has been answered.
  obtain ⟨m, us, c, -, hnested⟩ : ∃ m us c, m ≤ 34 ∧ mixedNested.Answers us c m := by
    rcases (delivery_isolates_listeners mixedNested).1 34 (by decide) (uncut_of_isWithin hinside) with
      ⟨hunderway, -⟩ | hdone
    · exact absurd hunderway (not_underway_of_done rfl rfl rfl)
    · exact hdone
  obtain ⟨n', vs', d', h', hfate, hsame⟩ := hreplaced 4 _ (.panicked "gone") (.panics "gone" nofun)
    (mixed World.grim 7) (mixedPassage World.grim 7 rfl) (directed_attends hclock' rfl rfl rfl)
    (fun j _ _ => directed_uncut hclock' hwithin' (by decide) (j + 1))
    (fun l _ _ => directed_ends hclock' rfl (Nat.le_refl 0))
  have hapart := (hnests _ mixedNested n vs d m us c h hnested rfl (by decide)).2
  exact ⟨n, n', m, vs, vs', us, d, d', c, h, hcount, hhanded, hnested, hapart, h', hfate, (hsame n vs d h).2⟩

end Orchestra
