import Orchestra.Proofs.Deadlines
import Orchestra.Proofs.Handing

/-!
# Listeners are called one after another

A delivery calls one listener after the other, and counts what becomes of each call.

* `Errand` — an event that is delivered from a set of listeners; `Errand.meant`, `Errand.handed` — whom it is
  meant for, and what they are handed;
* `Visit` — a call of a listener, with its fate; `tally` — what a delivery answers that has made some visits;
* `Execution.Visits` — a task makes a visit; `Execution.Tours` — it makes visits one after another, and calls
  nobody else in between;
* `Execution.visit_followed` — how far the next visit of a delivery has come;
* `Execution.deliverTo_visits` — how far all of them have come;
* `Execution.deliverTo_ends` — they come to an end if the calls do.
-/

namespace Orchestra

variable {A : Application}

/-! ### Errands -/

/-- An event that is delivered from a set of listeners. -/
structure Errand where
  cast : Cast
  bus : BusId
  /-- The listeners in the order of registration. -/
  set : List ListenerId
  distinct : set.Nodup
  event : Event
  targets : Option TargetSet

namespace Errand

/-- The listeners that the event is meant for. -/
def meant (e : Errand) : List ListenerId := e.set.filter (Bus.isMeant e.cast e.targets)

/-- The longest that a listener may take. -/
def limit (e : Errand) : Option Duration := e.cast.listenerLimit e.bus

/-- The call of a listener. -/
def call (e : Errand) (l : ListenerId) : Callee := .onEvent l e.event

/-- What the listeners are to be handed. -/
def handed (e : Errand) : List (ListenerId × Event × Priority) :=
  e.meant.map fun l => (l, e.event, e.event.priority)

/-- The delivery. -/
def program (e : Errand) : Program A Delivery := Bus.deliver e.cast e.bus e.set e.event e.targets

/-- An event is meant for the listeners of the target types, or for all of them. -/
theorem mem_meant {e : Errand} {l : ListenerId} :
    l ∈ e.meant ↔ l ∈ e.set ∧ ∀ ts, e.targets = some ts → e.cast.type l ∈ ts.types := by
  rw [meant, List.mem_filter]
  cases htargets : e.targets with
  | none => simp [Bus.isMeant]
  | some ts => simp [Bus.isMeant, TargetSet.matchesType]

end Errand

/-! ### Visits -/

/-- A call of a listener: with which steps it is made and left, and what becomes of it. -/
structure Visit where
  listener : ListenerId
  fate : Fate
  made : Nat
  left : Nat
  deriving DecidableEq, Repr, Inhabited

namespace Visit

/-- What is reported of a visit, if the listener failed. -/
def mishap? (cast : Cast) (v : Visit) : Option Mishap :=
  v.fate.failure?.map fun e => ⟨cast.name v.listener, e⟩

end Visit

/-- A delivery's count with one more visit. -/
def Delivery.count (cast : Cast) (d : Delivery) (v : Visit) : Delivery :=
  match v.fate.failure? with
  | none => d.handled
  | some e => d.failed (cast.name v.listener) e

/-- What a delivery answers that has made some visits. -/
def tally (cast : Cast) (vs : List Visit) : Delivery where
  delivered := vs.countP fun v => v.fate = .returned
  failures := vs.filterMap (Visit.mishap? cast)

/-- One more visit before others. -/
theorem tally_cons (cast : Cast) (v : Visit) (vs : List Visit) :
    tally cast (v :: vs) = match v.fate.failure? with
      | none => ⟨(tally cast vs).delivered + 1, (tally cast vs).failures⟩
      | some e => ⟨(tally cast vs).delivered, ⟨cast.name v.listener, e⟩ :: (tally cast vs).failures⟩ := by
  obtain ⟨l, fate, made, left⟩ := v
  cases fate <;> simp [tally, Visit.mishap?, Fate.failure?, List.filterMap_cons]

/-- Counting visits one after another. -/
theorem Delivery.foldl_count (cast : Cast) (vs : List Visit) (d : Delivery) :
    vs.foldl (Delivery.count cast) d
      = ⟨d.delivered + (tally cast vs).delivered, d.failures ++ (tally cast vs).failures⟩ := by
  induction vs generalizing d with
  | nil => exact congrArg (Delivery.mk _) (List.append_nil _).symm
  | cons v vs ih =>
    rw [List.foldl_cons, ih, tally_cons, Delivery.count]
    cases v.fate.failure? with
    | none => exact congrArg (fun n => Delivery.mk n _) (Nat.add_right_comm _ _ _)
    | some e => exact congrArg _ (List.append_assoc _ _ _)

theorem tally_eq_foldl (cast : Cast) (vs : List Visit) :
    vs.foldl (Delivery.count cast) {} = tally cast vs := by
  rw [Delivery.foldl_count, Nat.zero_add, List.nil_append]

/-- Every visit is counted once. -/
theorem attempts_tally (cast : Cast) (vs : List Visit) : (tally cast vs).attempts = vs.length := by
  induction vs with
  | nil => rfl
  | cons v vs ih =>
    rw [tally_cons, List.length_cons, ← ih]
    cases v.fate.failure? with
    | none => exact Nat.add_right_comm _ _ _
    | some e => rfl

/-- What is left of a delivery that has yet to call some listeners. -/
def Errand.onward (e : Errand) (next : Delivery → Program A Outcome) (set : List ListenerId)
    (d : Delivery) : Program A Outcome :=
  (Bus.deliverTo e.cast e.bus e.event set d).bind next

/-- After a visit a program goes on with another one; a failure is recorded before. -/
def Errand.Notes (e : Errand) (v : Visit) (p q : Program A Outcome) : Prop :=
  p = q ∨ ∃ err, v.fate.failure? = some err ∧
    p = .perform (.record (Bus.failureRecord e.cast e.event v.listener err)) fun _ => q

/-- A delivery calls the next listener, notes what has become of the call, and counts it. -/
theorem Errand.onward_cons (e : Errand) (next : Delivery → Program A Outcome) (l : ListenerId)
    (rest : List ListenerId) (d : Delivery) :
    ∃ nxt, e.onward next (l :: rest) d = .perform (.call (e.call l) e.limit) nxt ∧
      ∀ v : Visit, v.listener = l →
        e.Notes v (nxt v.fate.outcome) (e.onward next rest (d.count e.cast v)) := by
  obtain ⟨nxt, hcall, hok, herror⟩ := Bus.deliverTo_cons e.cast e.bus e.event l rest d next
  refine ⟨nxt, hcall, fun v hv => ?_⟩
  subst hv
  rw [Fate.outcome, Delivery.count, Notes]
  cases v.fate.failure? with
  | none => exact .inl hok
  | some err => exact .inr ⟨err, rfl, herror err⟩

namespace Machine.Execution

variable {w : World A}

/-- Task `t` makes a visit from within `calls`: it calls the listener, is inside of the call, and goes on with
what it is told by the fate of the call. -/
structure Visits (x : Execution w) (t : TaskId) (calls : Calls A) (e : Errand) (v : Visit) : Prop where
  made_lt : v.made < v.left
  call : ∃ next, x.Awaits t calls (.call (e.call v.listener) e.limit) next v.made v.left ∧
    ∃ passes, (x.state (v.left + 1)).core t = some ⟨.running (next v.fate.outcome), calls, passes⟩
  inside : x.Uncut t (calls.length + 1) (v.made + 1) v.left
  explains : x.Explains t calls (e.call v.listener) e.limit v.made v.left v.fate

/-- From `i` to `j` task `t` makes visits one after another from within `calls`, and calls nobody else from
there. -/
inductive Tours (x : Execution w) (t : TaskId) (calls : Calls A) (e : Errand) :
    List Visit → Nat → Nat → Prop where
  | nil {i j : Nat} : i ≤ j → x.heard t calls.length i j = [] → Tours x t calls e [] i j
  | cons {v : Visit} {vs : List Visit} {i j : Nat} : i ≤ v.made →
      x.heard t calls.length i v.made = [] → x.Visits t calls e v →
      Tours x t calls e vs (v.left + 1) j → Tours x t calls e (v :: vs) i j

variable {x : Execution w} {t : TaskId} {calls : Calls A} {passes : List Pass} {e : Errand}
  {i j m n d : Nat} {v : Visit} {vs : List Visit} {l : ListenerId} {k : Core A}

/-- Who is inside of a further call calls nobody from outside of it. -/
theorem callAt_inside {d' : Nat} (h : x.Uncut t d' i j) (hd : d < d') (hi : i ≤ n) (hj : n ≤ j) :
    x.callAt t d n = none := by
  obtain ⟨k, hk, -, hdepth⟩ := h n hi hj
  exact callAt_of_core hk fun _ _ _ _ heq => absurd hdepth (heq ▸ Nat.not_le_of_lt hd)

theorem Visits.callAt (h : x.Visits t calls e v) :
    x.callAt t calls.length v.made = some (e.call v.listener) := by
  obtain ⟨next, hawaits, -⟩ := h.call
  obtain ⟨passes, hbefore⟩ := hawaits.before
  exact callAt_of_call hawaits.turn hbefore

/-- With a visit one listener is called. -/
theorem Visits.heard (h : x.Visits t calls e v) (hj : v.left + 1 ≤ j) :
    x.heard t calls.length v.made j = e.call v.listener :: x.heard t calls.length (v.left + 1) j := by
  rw [heard_trans (Nat.le_succ v.made) (Nat.le_trans (Nat.le_succ_of_le h.made_lt) hj), heard_succ,
    h.callAt, heard_trans (Nat.le_succ_of_le h.made_lt) hj, heard_eq_nil fun n hn hnj =>
      callAt_inside h.inside (Nat.lt_succ_self _) hn (Nat.le_of_lt_succ hnj)]
  rfl

theorem Tours.le (h : x.Tours t calls e vs i j) : i ≤ j := by
  induction h with
  | nil hij => exact hij
  | cons hi _ hv _ ih =>
    exact Nat.le_trans hi (Nat.le_trans (Nat.le_of_lt hv.made_lt) (Nat.le_trans (Nat.le_succ _) ih))

/-- The listeners that are visited are those that are called. -/
theorem Tours.heard (h : x.Tours t calls e vs i j) :
    x.heard t calls.length i j = (vs.map Visit.listener).map e.call := by
  induction h with
  | nil _ hnobody => exact hnobody
  | @cons v vs i j hi hbefore hv hrest ih =>
    rw [heard_trans hi (Nat.le_trans (Nat.le_of_lt hv.made_lt) (Nat.le_trans (Nat.le_succ _) hrest.le)),
      hbefore, hv.heard hrest.le, ih]
    rfl

theorem Tours.visits (h : x.Tours t calls e vs i j) (hv : v ∈ vs) : x.Visits t calls e v := by
  induction h with
  | nil => cases hv
  | cons _ _ hfirst _ ih =>
    rcases List.mem_cons.1 hv with rfl | hmem
    · exact hfirst
    · exact ih hmem

/-- A tour may begin before anybody is called. -/
theorem Tours.earlier (h : x.Tours t calls e vs m j) (him : i ≤ m)
    (hheard : x.heard t calls.length i m = []) : x.Tours t calls e vs i j := by
  cases h with
  | nil hm hafter =>
    refine .nil (Nat.le_trans him hm) ?_
    rw [heard_trans him hm, hheard, hafter]
    rfl
  | cons hm hbefore hv hrest =>
    refine .cons (Nat.le_trans him hm) ?_ hv hrest
    rw [heard_trans him hm, hheard, hbefore]
    rfl

/-! ### How far a delivery has come -/

/-- After `j` steps a delivery to some listeners that was begun after `i` steps is under way. -/
inductive Underway (x : Execution w) (t : TaskId) (calls : Calls A) (e : Errand)
    (set : List ListenerId) (i j : Nat) : Prop where
  /-- The next listener is about to be called. -/
  | calls {vs : List Visit} {l : ListenerId} {next : Outcome → Program A Outcome} {passes : List Pass} :
      x.Tours t calls e vs i j → vs.map Visit.listener ++ [l] <+: set →
      (x.state j).core t = some ⟨.running (.perform (.call (e.call l) e.limit) next), calls, passes⟩ →
      Underway x t calls e set i j
  /-- The call of a listener is in progress. -/
  | visits {vs : List Visit} {l : ListenerId} {next : Outcome → Program A Outcome} {m : Nat} :
      x.Tours t calls e vs i m → vs.map Visit.listener ++ [l] <+: set → m < j →
      x.Awaits t calls (.call (e.call l) e.limit) next m j → Underway x t calls e set i j
  /-- The listener that was called last has failed, and that is about to be recorded. -/
  | records {vs : List Visit} {v : Visit} {err : HookFailure} {next : Unit → Program A Outcome}
      {passes : List Pass} :
      x.Tours t calls e vs i j → vs.map Visit.listener <+: set → vs.getLast? = some v →
      v.fate.failure? = some err →
      (x.state j).core t = some ⟨.running (.perform
        (.record (Bus.failureRecord e.cast e.event v.listener err)) next), calls, passes⟩ →
      Underway x t calls e set i j

/-- One more visit before what has been made of a delivery. -/
theorem Underway.cons {rest : List ListenerId} (h : x.Underway t calls e rest m j) (hi : i ≤ v.made)
    (hbefore : x.heard t calls.length i v.made = []) (hv : x.Visits t calls e v)
    (hm : v.left + 1 ≤ m) (hafter : x.heard t calls.length (v.left + 1) m = []) :
    x.Underway t calls e (v.listener :: rest) i j := by
  have hcons : ∀ {vs : List Visit} {j : Nat}, x.Tours t calls e vs m j →
      x.Tours t calls e (v :: vs) i j := fun htour => .cons hi hbefore hv (htour.earlier hm hafter)
  cases h with
  | calls htour hinitial hk => exact .calls (hcons htour) ((List.prefix_cons_inj _).2 hinitial) hk
  | visits htour hinitial hlt hawaits =>
    exact .visits (hcons htour) ((List.prefix_cons_inj _).2 hinitial) hlt hawaits
  | records htour hinitial hlast hfate hk =>
    refine .records (hcons htour) ((List.prefix_cons_inj _).2 hinitial) ?_ hfate hk
    rw [List.getLast?_cons, hlast]
    rfl

/-- Those that have been called so far are the first of those that are to be called. -/
theorem Underway.heard {set : List ListenerId} (h : x.Underway t calls e set i j)
    (huncut : x.Uncut t calls.length i j) : x.heard t calls.length i j <+: set.map e.call := by
  cases h with
  | calls htour hinitial _ =>
    rw [htour.heard]
    exact ((List.prefix_append _ _).trans hinitial).map e.call
  | @visits vs l next m htour hinitial hlt hawaits =>
    have hbegun : x.callAt t calls.length m = some (e.call l) := by
      obtain ⟨passes, hbefore⟩ := hawaits.before
      exact callAt_of_call hawaits.turn hbefore
    have hinside := hawaits.uncut (huncut.tail htour.le)
    rw [heard_trans htour.le (Nat.le_of_lt hlt), heard_trans (Nat.le_succ m) hlt, heard_succ, hbegun,
      htour.heard, heard_eq_nil fun n hn hnj =>
        callAt_inside hinside (Nat.lt_succ_self _) hn (Nat.le_of_lt hnj)]
    have hmap := hinitial.map e.call
    rwa [List.map_append] at hmap
  | records htour hinitial _ _ _ =>
    rw [htour.heard]
    exact hinitial.map e.call

/-- A task that has come to the end of a body is not amid a delivery there. -/
theorem not_underway_of_done {set : List ListenerId} {o : Outcome}
    (hk : (x.state j).core t = some k) (hdone : k.doing = .running (.done o)) (hlevel : k.calls.length = calls.length) :
    ¬ x.Underway t calls e set i j := by
  intro h
  cases h with
  | calls _ _ hcall => 
    obtain rfl := Option.some.inj (hk.symm.trans hcall)
    cases hdone
  | visits _ _ hlt hawaits =>
    obtain ⟨k', passes, hk', ⟨inner, hinner, -⟩, -⟩ := hawaits.inside hlt (Nat.le_refl _)
    obtain rfl := Option.some.inj (hk.symm.trans hk')
    rw [hinner, List.length_append, List.length_cons] at hlevel
    omega
  | records _ _ _ _ hrecord => 
    obtain rfl := Option.some.inj (hk.symm.trans hrecord)
    cases hdone

/-! ### Visit after visit -/

section Delivery

variable {next : Delivery → Program A Outcome} {nxt : Outcome → Program A Outcome} {o : Outcome}
  {set rest : List ListenerId} {dl : Delivery}

/-- A call that has been made and left is a visit. -/
theorem Acts.visit {k' : Core A} (hkeeps : x.KeepsLimits t)
    (hacts : x.Acts t calls.length
      ⟨.running (.perform (.call (e.call l) e.limit) nxt), calls, passes⟩ i m k')
    (huncut : x.Uncut t calls.length i (n + 1))
    (hawaits : x.Awaits t calls (.call (e.call l) e.limit) nxt m n)
    (hanswers : x.Answers t calls ⟨.call (e.call l) e.limit, o⟩ m n) {passes' : List Pass}
    (hafter : (x.state (n + 1)).core t = some ⟨.running (nxt o), calls, passes'⟩) :
    ∃ v : Visit, v.listener = l ∧ i ≤ v.made ∧ x.heard t calls.length i v.made = [] ∧ v.left = n ∧
      x.Visits t calls e v ∧
      (x.state (n + 1)).core t = some ⟨.running (nxt v.fate.outcome), calls, passes'⟩ := by
  have huncut' := huncut.tail hacts.le
  obtain ⟨hmn, fate, hexplains, hback⟩ := hawaits.over hanswers hkeeps huncut' hafter
  have hinside := hawaits.uncut (huncut'.mono (Nat.le_refl m) (Nat.le_succ n))
  exact ⟨⟨l, fate, m, n⟩, rfl, hacts.le, hacts.rests.heard _, rfl,
    ⟨hmn, ⟨nxt, hawaits, passes', hback⟩, hinside, hexplains⟩, hback⟩

/-- A delivery has yet to record a failure, or goes on. -/
theorem notes_followed {p q : Program A Outcome} (hnotes : e.Notes v p q)
    (huncut : x.Uncut t calls.length i j) (hij : i ≤ j)
    (hk : (x.state i).core t = some ⟨.running p, calls, passes⟩) :
    (∃ err nxt passes', v.fate.failure? = some err ∧ x.heard t calls.length i j = [] ∧
        (x.state j).core t = some ⟨.running (.perform
          (.record (Bus.failureRecord e.cast e.event v.listener err)) nxt), calls, passes'⟩) ∨
      ∃ n passes', i ≤ n ∧ n ≤ j ∧ x.heard t calls.length i n = [] ∧
        (x.state n).core t = some ⟨.running q, calls, passes'⟩ := by
  rcases hnotes with rfl | ⟨err, hfate, rfl⟩
  · exact .inr ⟨i, passes, Nat.le_refl i, hij, heard_self i, hk⟩
  · rcases record_followed huncut hij hk with ⟨hpending, hspends⟩ | ⟨n, hn, hback, hspends⟩
    · exact .inl ⟨err, _, passes, hfate, hspends.heard, hpending⟩
    · exact .inr ⟨n, passes, hspends.le, hn, hspends.heard, hback⟩

/-- **How far a delivery has come** that is not cut off. -/
theorem deliverTo_visits (hkeeps : x.KeepsLimits t) (huncut : x.Uncut t calls.length i j) (hij : i ≤ j)
    (hk : (x.state i).core t = some ⟨.running (e.onward next set dl), calls, passes⟩) :
    x.Underway t calls e set i j ∨ ∃ n vs passes', n ≤ j ∧ x.Tours t calls e vs i n ∧
      vs.map Visit.listener = set ∧ (x.state n).core t
        = some ⟨.running (next (vs.foldl (Delivery.count e.cast) dl)), calls, passes'⟩ := by
  induction set generalizing i dl passes with
  | nil => exact .inr ⟨i, [], passes, hij, .nil (Nat.le_refl i) (heard_self i), rfl, hk⟩
  | cons l rest ih =>
    obtain ⟨nxt, hcall, hnotes⟩ := e.onward_cons next l rest dl
    rw [hcall] at hk
    rcases first_turn huncut hij hk with hrests | ⟨m, k', hm, hacts⟩
    · exact .inl (.calls (.nil hij (hrests.heard _)) ⟨rest, rfl⟩ (hrests.last hij))
    rcases hacts.asked.followed (Nat.le_of_lt hm) (huncut.tail hacts.le) with
      hawaits | ⟨n, o, passes', hn, hawaits, hanswers, hafter⟩
    · exact .inl (.visits (.nil hacts.le (hacts.rests.heard _)) ⟨rest, rfl⟩ hm hawaits)
    obtain ⟨v, hvl, hi, hbefore, rfl, hv, hback⟩ :=
      hacts.visit hkeeps (huncut.mono (Nat.le_refl i) hn) hawaits hanswers hafter
    have hafter := Nat.le_trans hi (Nat.le_succ_of_le (Nat.le_of_lt hv.made_lt))
    rcases notes_followed (hnotes v hvl) (huncut.tail hafter) hn hback with
      ⟨err, nxt', passes'', hfate, hnobody, hpending⟩ | ⟨n, passes'', hvn, hnj, hnobody, hk'⟩
    · have hone : x.Tours t calls e [v] i j := .cons hi hbefore hv (.nil hn hnobody)
      exact .inl (.records hone ⟨rest, by rw [← hvl]; rfl⟩ rfl hfate hpending)
    · rcases ih (huncut.tail (Nat.le_trans hafter hvn)) hnj hk' with
        hunderway | ⟨n', vs, passes₃, hn', htour, hall, hdone⟩
      · exact .inl (hvl ▸ hunderway.cons hi hbefore hv hvn hnobody)
      · refine .inr ⟨n', v :: vs, passes₃, hn', .cons hi hbefore hv (htour.earlier hvn hnobody), ?_, hdone⟩
        rw [List.map_cons, hvl, hall]

/-! ### The end -/

/-- The calls of a listener come to an end: of themselves, or in this execution. -/
def Ends (x : Execution w) (t : TaskId) (calls : Calls A) (e : Errand) (l : ListenerId) : Prop :=
  w.Closes e.limit (e.call l) ∨
    ∀ m nxt, ¬ ∀ n, m ≤ n → x.Awaits t calls (.call (e.call l) e.limit) nxt m n

/-- A call that has been left once all moves have been made has come to an end. -/
theorem directed_ends {buses : Nat} {p : Program A Outcome} {memory : A.Memory} {moves : List Move}
    (hclock : ((Execution.directed w buses p memory moves).state (moves.length + 1)).tick = none)
    {k : Core A} (hk : ((Execution.directed w buses p memory moves).state (moves.length + 1)).core t = some k)
    (hout : k.calls.length ≤ calls.length) : (Execution.directed w buses p memory moves).Ends t calls e l := by
  refine .inr fun m nxt hforever => ?_
  obtain ⟨k', passes, hk', ⟨inner, hinner, -⟩, -⟩ :=
    (hforever (max (m + 1) (moves.length + 1)) (Nat.le_trans (Nat.le_succ m) (Nat.le_max_left _ _))).inside
      (Nat.le_max_left _ _) (Nat.le_refl _)
  rw [directed_rest hclock (Nat.le_max_right _ _)] at hk'
  obtain rfl := Option.some.inj (hk.symm.trans hk')
  rw [hinner, List.length_append, List.length_cons] at hout
  omega

theorem Ends.over (h : x.Ends t calls e l) (hkeeps : x.KeepsLimits t) (hattends : x.Attends t)
    (huncut : ∀ n, x.Uncut t calls.length m n) :
    ¬ ∀ n, m ≤ n → x.Awaits t calls (.call (e.call l) e.limit) nxt m n := by
  rcases h with hcloses | hover
  · exact ends_of_closes hcloses hkeeps hattends huncut
  · exact hover m nxt

/-- A failure is recorded, and the delivery goes on. -/
theorem notes_end {p q : Program A Outcome} (hnotes : e.Notes v p q) (hattends : x.Attends t)
    (huncut : ∀ n, x.Uncut t calls.length i n)
    (hk : (x.state i).core t = some ⟨.running p, calls, passes⟩) :
    ∃ n passes', i ≤ n ∧ x.heard t calls.length i n = [] ∧
      (x.state n).core t = some ⟨.running q, calls, passes'⟩ := by
  rcases hnotes with rfl | ⟨err, -, rfl⟩
  · exact ⟨i, passes, Nat.le_refl i, heard_self i, hk⟩
  · obtain ⟨n, k', hacts⟩ := hattends.acts huncut hk
    obtain rfl := Step.of_record hacts.goesOn hacts.depth hacts.step
    have hspends := hacts.spends_nothing nofun fun _ hp => hp
    exact ⟨n + 1, passes, hspends.le, hspends.heard, hacts.after⟩

/-- **A delivery comes to its end** if the calls of its listeners do. -/
theorem deliverTo_ends (hkeeps : x.KeepsLimits t) (hattends : x.Attends t)
    (huncut : ∀ n, x.Uncut t calls.length i n) (hends : ∀ l ∈ set, x.Ends t calls e l)
    (hk : (x.state i).core t = some ⟨.running (e.onward next set dl), calls, passes⟩) :
    ∃ n vs passes', x.Tours t calls e vs i n ∧ vs.map Visit.listener = set ∧ (x.state n).core t
      = some ⟨.running (next (vs.foldl (Delivery.count e.cast) dl)), calls, passes'⟩ := by
  induction set generalizing i dl passes with
  | nil => exact ⟨i, [], passes, .nil (Nat.le_refl i) (heard_self i), rfl, hk⟩
  | cons l rest ih =>
    obtain ⟨nxt, hcall, hnotes⟩ := e.onward_cons next l rest dl
    rw [hcall] at hk
    -- The listener is called, and the call comes to its end.
    obtain ⟨m, k', hacts⟩ := hattends.acts huncut hk
    have huncut' : ∀ n, x.Uncut t calls.length m n := fun n => (huncut n).tail hacts.le
    have hover : ∃ n o passes', x.Awaits t calls (.call (e.call l) e.limit) nxt m n ∧
        x.Answers t calls ⟨.call (e.call l) e.limit, o⟩ m n ∧
        (x.state (n + 1)).core t = some ⟨.running (nxt o), calls, passes'⟩ := by
      by_contra hnever
      have hforever : ∀ n, m ≤ n → x.Awaits t calls (.call (e.call l) e.limit) nxt m n := by
        intro n hn
        rcases hacts.asked.followed hn (huncut' n) with hawaits | ⟨n', o, passes', -, hanswered⟩
        · exact hawaits
        · exact absurd ⟨n', o, passes', hanswered⟩ hnever
      exact (hends l List.mem_cons_self).over hkeeps hattends huncut' hforever
    obtain ⟨n, o, passes', hawaits, hanswers, hafter⟩ := hover
    obtain ⟨v, hvl, hi, hbefore, rfl, hv, hback⟩ :=
      hacts.visit hkeeps (huncut _) hawaits hanswers hafter
    have hafter := Nat.le_trans hi (Nat.le_succ_of_le (Nat.le_of_lt hv.made_lt))
    obtain ⟨n, passes'', hvn, hnobody, hk'⟩ := notes_end (hnotes v hvl) hattends
      (fun n => (huncut n).tail hafter) hback
    obtain ⟨n', vs, passes₃, htour, hall, hdone⟩ := ih (fun n' => (huncut n').tail (Nat.le_trans hafter hvn))
      (fun l' hl' => hends l' (List.mem_cons_of_mem l hl')) hk'
    refine ⟨n', v :: vs, passes₃, .cons hi hbefore hv (htour.earlier hvn hnobody), ?_, hdone⟩
    rw [List.map_cons, hvl, hall]

end Delivery

end Machine.Execution

end Orchestra
