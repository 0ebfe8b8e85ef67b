import Mathlib.Data.List.Forall2
import Orchestra.Proofs.Delivering

/-!
# Publications as a call tree

What becomes of an event if everything happens in one place: those listeners that it is meant for react to
it, one after another, and an event that is published by one of them is through before it goes on.

* `Behaviour` — what a listener does with an event: publish further events, and anything that has nothing to
  do with buses; `Behaviour.program` — the body that does so;
* `Publication`, `Reaction` — what has become of an event, as a tree; `Publication.calls` — the tree in
  pre-order; `Publication.delivery` — what the publisher is told;
* `Family.Performs`, `Family.Stems` — the trees that come from the behaviours of all listeners;
* `Family.Ends`, `Family.IsFinite` — further events are published finitely often;
* `Family.publication` — the tree by recursion, where nothing is done but publish;
  `Family.publication_some` — it is the only one; `IsFinite.publication` — and there is one.
-/

namespace Orchestra

open Machine

variable {A : Application}

/-- An operation that has nothing to do with calls, deliveries and the listeners of buses. -/
def Op.IsAside (op : Op A) : Prop := op.IsApart ∨ ∃ r, op = .record r

/-! ### Behaviours -/

/-- What a listener does with an event. -/
inductive Behaviour (A : Application) where
  | returns (o : Outcome)
  | panics (payload : Payload)
  /-- Does something that has nothing to do with buses, and goes on with the answer. -/
  | aside (op : Op A) (isAside : op.IsAside) (next : op.Answer → Behaviour A)
  /-- Publishes an event, to all listeners or to those of the target types, and goes on with what has become
  of it. -/
  | publishes (event : Event) (targets : Option TargetSet) (next : Delivery → Behaviour A)

/-- The body that behaves so on a bus. -/
def Behaviour.program (cast : Cast) (b : BusId) : Behaviour A → Program A Outcome
  | returns o => .done o
  | panics payload => .perform (.panic payload) nofun
  | aside op _ next => .perform op fun a => (next a).program cast b
  | publishes event targets next =>
    Bus.publish cast b event targets >>= fun d => (next d).program cast b

/-- What each listener does with each event. -/
abbrev Family (A : Application) := ListenerId → Event → Behaviour A

/-- The world in which listeners behave so on a bus. -/
def World.behaving (cast : Cast) (b : BusId) (c : Family A) : World A where
  cast
  body
    | .onEvent l event => (c l event).program cast b
    | _ => .done (.ok ())
  job _ := .done (.ok ())

/-! ### Trees -/

mutual

/-- An event that has been published, with the reactions of those that it was handed to. -/
inductive Publication where
  | mk (event : Event) (targets : Option TargetSet) (reactions : List Reaction)

/-- What a listener has done with an event: the events that it has published, and what the publisher of the
first one was told. -/
inductive Reaction where
  | mk (listener : ListenerId) (publications : List Publication) (outcome : Outcome)

end

namespace Reaction

def listener : Reaction → ListenerId
  | mk l _ _ => l

def publications : Reaction → List Publication
  | mk _ publications _ => publications

def outcome : Reaction → Outcome
  | mk _ _ o => o

/-- A delivery's count with one more reaction. -/
def count (cast : Cast) (d : Delivery) (r : Reaction) : Delivery :=
  match r.outcome with
  | .ok () => d.handled
  | .error e => d.failed (cast.name r.listener) e

end Reaction

namespace Publication

def event : Publication → Event
  | mk event _ _ => event

def targets : Publication → Option TargetSet
  | mk _ targets _ => targets

def reactions : Publication → List Reaction
  | mk _ _ reactions => reactions

/-- What the publisher is told. -/
def delivery (cast : Cast) (T : Publication) : Delivery := T.reactions.foldl (Reaction.count cast) {}

end Publication

mutual

/-- The calls of listeners in pre-order: a listener is called, then everybody whom its own events are handed
to, and then the next listener. -/
def Publication.calls : Publication → List Callee
  | .mk event _ reactions => Reaction.allCalls event reactions

def Reaction.calls (event : Event) : Reaction → List Callee
  | .mk l publications _ => .onEvent l event :: Publication.allCalls publications

def Reaction.allCalls (event : Event) : List Reaction → List Callee
  | [] => []
  | r :: rest => r.calls event ++ Reaction.allCalls event rest

def Publication.allCalls : List Publication → List Callee
  | [] => []
  | T :: rest => T.calls ++ Publication.allCalls rest

end

theorem Reaction.allCalls_eq (event : Event) (rs : List Reaction) :
    Reaction.allCalls event rs = rs.flatMap (Reaction.calls event) := by
  induction rs with
  | nil => rfl
  | cons r rest ih => rw [Reaction.allCalls, ih, List.flatMap_cons]

theorem Publication.allCalls_eq (Ts : List Publication) :
    Publication.allCalls Ts = Ts.flatMap Publication.calls := by
  induction Ts with
  | nil => rfl
  | cons T rest ih => rw [Publication.allCalls, ih, List.flatMap_cons]

theorem Publication.calls_eq (T : Publication) :
    T.calls = T.reactions.flatMap (Reaction.calls T.event) := by
  cases T
  exact Reaction.allCalls_eq _ _

theorem Reaction.calls_eq (event : Event) (r : Reaction) :
    r.calls event = .onEvent r.listener event :: r.publications.flatMap Publication.calls := by
  cases r
  exact congrArg _ (Publication.allCalls_eq _)

/-! ### Which trees there are -/

namespace Family

variable {c : Family A} {cast : Cast} {set : List ListenerId} {event : Event} {targets : Option TargetSet}
  {v : Behaviour A} {pubs pubs' : List Publication} {o o' : Outcome} {T T' : Publication}

/-- Among the given listeners a behaviour leads to some publications and an outcome: each event is handed to
all of those that it is meant for, and the behaviour goes on with what has become of it. -/
inductive Performs (c : Family A) (cast : Cast) (set : List ListenerId) :
    Behaviour A → List Publication → Outcome → Prop where
  | returns (o : Outcome) : Performs c cast set (.returns o) [] o
  | panics (payload : Payload) : Performs c cast set (.panics payload) [] (.error (.panicked payload.message))
  | aside {op : Op A} {isAside : op.IsAside} {next : op.Answer → Behaviour A} {pubs : List Publication}
      {o : Outcome} (a : op.Answer) : Performs c cast set (next a) pubs o →
      Performs c cast set (.aside op isAside next) pubs o
  | publishes {event : Event} {targets : Option TargetSet} {next : Delivery → Behaviour A}
      {rs : List Reaction} {pubs : List Publication} {o : Outcome} :
      rs.map Reaction.listener = set.filter (Bus.isMeant cast targets) →
      (∀ r ∈ rs, Performs c cast set (c r.listener event) r.publications r.outcome) →
      Performs c cast set (next ((Publication.mk event targets rs).delivery cast)) pubs o →
      Performs c cast set (.publishes event targets next) (.mk event targets rs :: pubs) o

/-- A tree comes from the behaviours of the given listeners. -/
structure Stems (c : Family A) (cast : Cast) (set : List ListenerId) (T : Publication) : Prop where
  /-- The event is handed to all of those that it is meant for, whomever others are meant for. -/
  listeners : T.reactions.map Reaction.listener = set.filter (Bus.isMeant cast T.targets)
  performs : ∀ r ∈ T.reactions, Performs c cast set (c r.listener T.event) r.publications r.outcome

/-- A behaviour publishes finitely many events, and so do those that they are handed to. -/
inductive Ends (c : Family A) (cast : Cast) (set : List ListenerId) : Behaviour A → Prop where
  | returns (o : Outcome) : Ends c cast set (.returns o)
  | panics (payload : Payload) : Ends c cast set (.panics payload)
  | aside {op : Op A} {isAside : op.IsAside} {next : op.Answer → Behaviour A} :
      (∀ a, Ends c cast set (next a)) → Ends c cast set (.aside op isAside next)
  | publishes {event : Event} {targets : Option TargetSet} {next : Delivery → Behaviour A} :
      (∀ l ∈ set.filter (Bus.isMeant cast targets), Ends c cast set (c l event)) →
      (∀ T, Stems c cast set T → T.event = event → T.targets = targets →
        Ends c cast set (next (T.delivery cast))) → Ends c cast set (.publishes event targets next)

/-- An event leads to finitely many others. -/
def IsFinite (c : Family A) (cast : Cast) (set : List ListenerId) (event : Event)
    (targets : Option TargetSet) : Prop :=
  ∀ l ∈ set.filter (Bus.isMeant cast targets), c.Ends cast set (c l event)

/-- Every event that is published within a tree has a tree of its own, which comes from the same
listeners. -/
theorem Performs.stems (h : c.Performs cast set v pubs o) : ∀ T ∈ pubs, c.Stems cast set T := by
  induction h with
  | returns | panics => exact fun _ hT => nomatch hT
  | aside _ _ ih => exact ih
  | publishes hlisteners hreactions _ _ ih =>
    intro T hT
    rcases List.mem_cons.1 hT with rfl | hrest
    · exact ⟨hlisteners, hreactions⟩
    · exact ih T hrest

end Family

/-! ### The tree by recursion -/

/-- What a behaviour leads to, given what becomes of the events that it publishes; no answer if it does
anything else. -/
def Behaviour.unfold (cast : Cast) (publication : Event → Option TargetSet → Option Publication) :
    Behaviour A → Option (List Publication × Outcome)
  | returns o => some ([], o)
  | panics payload => some ([], .error (.panicked payload.message))
  | aside .. => none
  | publishes event targets next => do
    let T ← publication event targets
    let (rest, o) ← (next (T.delivery cast)).unfold cast publication
    return (T :: rest, o)

/-- What a listener that behaves so leads to. -/
def Behaviour.reaction (cast : Cast) (publication : Event → Option TargetSet → Option Publication)
    (l : ListenerId) (v : Behaviour A) : Option Reaction :=
  (v.unfold cast publication).map fun (publications, o) => .mk l publications o

/-- It does nothing but publish. -/
def Behaviour.IsPlain : Behaviour A → Prop
  | returns _ | panics _ => True
  | aside .. => False
  | publishes _ _ next => ∀ d, (next d).IsPlain

namespace Family

/-- What becomes of an event among the given listeners: each of those that it is meant for is called, and the
events that it publishes are through before it goes on.  No answer if listeners publish within listeners more
often than `depth` times. -/
def publication (c : Family A) (cast : Cast) (set : List ListenerId) (depth : Nat) (event : Event)
    (targets : Option TargetSet) : Option Publication :=
  match depth with
  | 0 => none
  | depth + 1 => do
    let reactions ← (set.filter (Bus.isMeant cast targets)).mapM fun l =>
      (c l event).reaction cast (c.publication cast set depth) l
    return .mk event targets reactions

variable {c : Family A} {cast : Cast} {set : List ListenerId} {event : Event} {targets : Option TargetSet}
  {v : Behaviour A} {pubs : List Publication} {o : Outcome} {T : Publication} {l : ListenerId} {r : Reaction}
  {f g : Event → Option TargetSet → Option Publication}

theorem reaction_eq_some : v.reaction cast f l = some r ↔
    v.unfold cast f = some (r.publications, r.outcome) ∧ r.listener = l := by
  obtain ⟨l', pubs, o⟩ := r
  rw [Behaviour.reaction, Option.map_eq_some_iff]
  constructor
  · rintro ⟨⟨pubs', o'⟩, hunfold, heq⟩
    cases heq
    exact ⟨hunfold, rfl⟩
  · rintro ⟨hunfold, rfl⟩
    exact ⟨(pubs, o), hunfold, rfl⟩

/-- What becomes of an event is that tree and no other, and it is finite. -/
structure Becomes (c : Family A) (cast : Cast) (set : List ListenerId) (event : Event)
    (targets : Option TargetSet) (T : Publication) : Prop where
  event_eq : T.event = event
  targets_eq : T.targets = targets
  stems : c.Stems cast set T
  finite : c.IsFinite cast set event targets
  unique : ∀ T', c.Stems cast set T' → T'.event = event → T'.targets = targets → T' = T

/-- What a listener does with an event is that reaction and no other. -/
structure Reacts (c : Family A) (cast : Cast) (set : List ListenerId) (event : Event) (l : ListenerId)
    (r : Reaction) : Prop where
  listener_eq : r.listener = l
  performs : c.Performs cast set (c l event) r.publications r.outcome
  ends : c.Ends cast set (c l event)
  unique : ∀ r' : Reaction, r'.listener = l →
    c.Performs cast set (c l event) r'.publications r'.outcome → r' = r

/-- What a behaviour leads to by recursion is all that it leads to. -/
theorem unfold_some {publication : Event → Option TargetSet → Option Publication}
    (hpublication : ∀ event targets T, publication event targets = some T →
      c.Becomes cast set event targets T) (h : v.unfold cast publication = some (pubs, o)) :
    c.Performs cast set v pubs o ∧ c.Ends cast set v ∧
      ∀ pubs' o', c.Performs cast set v pubs' o' → pubs' = pubs ∧ o' = o := by
  induction v generalizing pubs with
  | returns o =>
    cases h
    exact ⟨.returns o, .returns o, fun _ _ hperforms => by cases hperforms; exact ⟨rfl, rfl⟩⟩
  | panics payload =>
    cases h
    exact ⟨.panics payload, .panics payload, fun _ _ hperforms => by cases hperforms; exact ⟨rfl, rfl⟩⟩
  | aside op isAside next => cases h
  | publishes event targets next ih =>
    obtain ⟨⟨event', targets', rs⟩, hT, hrest⟩ := Option.bind_eq_some_iff.1 h
    obtain ⟨⟨rest, o'⟩, hnext, heq⟩ := Option.bind_eq_some_iff.1 hrest
    cases heq
    obtain ⟨rfl, rfl, hstems, hfinite, hunique⟩ := hpublication event targets _ hT
    obtain ⟨hperforms, hends, hsame⟩ := ih _ hnext
    refine ⟨.publishes hstems.listeners hstems.performs hperforms,
      .publishes hfinite fun T hT hevent htargets => ?_, fun pubs' o' hother => ?_⟩
    · rw [hunique T hT hevent htargets]
      exact hends
    · cases hother with
      | @publishes _ _ _ rs' pubs' _ hlisteners hreactions hnext' =>
        obtain rfl := (Publication.mk.inj (hunique (.mk event' targets' rs') ⟨hlisteners, hreactions⟩ rfl rfl)).2.2
        obtain ⟨rfl, rfl⟩ := hsame _ _ hnext'
        exact ⟨rfl, rfl⟩

/-- Reactions of some listeners, one after another, are the only ones. -/
theorem Reacts.all {ls : List ListenerId} {rs : List Reaction}
    (h : List.Forall₂ (c.Reacts cast set event) ls rs) :
    rs.map Reaction.listener = ls ∧
      (∀ r ∈ rs, c.Performs cast set (c r.listener event) r.publications r.outcome) ∧
      (∀ l ∈ ls, c.Ends cast set (c l event)) ∧
      ∀ rs' : List Reaction, rs'.map Reaction.listener = ls →
        (∀ r ∈ rs', c.Performs cast set (c r.listener event) r.publications r.outcome) → rs' = rs := by
  induction h with
  | nil => exact ⟨rfl, fun _ hr => (nomatch hr), fun _ hl => (nomatch hl), fun _ h _ => List.map_eq_nil_iff.1 h⟩
  | @cons l r ls rs hr hrest ih =>
    obtain ⟨hlisteners, hperforms, hends, hunique⟩ := ih
    obtain ⟨rfl, hperforms₁, hends₁, hunique₁⟩ := hr
    refine ⟨congrArg _ hlisteners, List.forall_mem_cons.2 ⟨hperforms₁, hperforms⟩,
      List.forall_mem_cons.2 ⟨hends₁, hends⟩, fun rs' hmap hperforms' => ?_⟩
    cases rs' with
    | nil => cases hmap
    | cons r' rest' =>
      obtain ⟨hlistener, hmap'⟩ := List.cons.inj hmap
      obtain ⟨hperforms₀, hperforms''⟩ := List.forall_mem_cons.1 hperforms'
      rw [hunique rest' hmap' hperforms'', hunique₁ r' hlistener (hlistener ▸ hperforms₀)]

theorem mapM_eq_some {α β : Type} {f : α → Option β} {as : List α} {bs : List β} :
    as.mapM f = some bs ↔ List.Forall₂ (fun a b => f a = some b) as bs := by
  induction as generalizing bs with
  | nil =>
    rw [List.mapM_nil, List.forall₂_nil_left_iff]
    exact Option.some_inj.trans eq_comm
  | cons a as ih =>
    rw [List.mapM_cons, List.forall₂_cons_left_iff]
    constructor
    · intro h
      obtain ⟨b, hb, hrest⟩ := Option.bind_eq_some_iff.1 h
      obtain ⟨rest, hmap, heq⟩ := Option.bind_eq_some_iff.1 hrest
      exact ⟨b, rest, hb, ih.1 hmap, (Option.some.inj heq).symm⟩
    · rintro ⟨b, rest, hb, hrest, rfl⟩
      exact Option.bind_eq_some_iff.2 ⟨b, hb, Option.bind_eq_some_iff.2 ⟨rest, ih.2 hrest, rfl⟩⟩

theorem publication_succ {depth : Nat} :
    c.publication cast set (depth + 1) event targets = some T ↔ ∃ rs, T = .mk event targets rs ∧
      List.Forall₂ (fun l r => (c l event).unfold cast (c.publication cast set depth)
        = some (r.publications, r.outcome) ∧ r.listener = l) (set.filter (Bus.isMeant cast targets)) rs := by
  rw [publication]
  refine Option.bind_eq_some_iff.trans (exists_congr fun rs => ?_)
  rw [mapM_eq_some, and_comm]
  simp only [reaction_eq_some]
  exact and_congr_left fun _ => Option.some_inj.trans eq_comm

/-- **What becomes of an event by recursion is all that becomes of it.** -/
theorem publication_some {depth : Nat} (h : c.publication cast set depth event targets = some T) :
    c.Becomes cast set event targets T := by
  induction depth generalizing event targets T with
  | zero => cases h
  | succ depth ih =>
    obtain ⟨rs, rfl, hrs⟩ := publication_succ.1 h
    have hreacts : List.Forall₂ (c.Reacts cast set event) (set.filter (Bus.isMeant cast targets)) rs := by
      refine hrs.imp fun l r hr => ?_
      obtain ⟨hunfold, hlistener⟩ := hr
      obtain ⟨hperforms, hends, hsame⟩ := unfold_some (fun event targets T => ih) hunfold
      refine ⟨hlistener, hperforms, hends, fun r' hlistener' hperforms' => ?_⟩
      obtain ⟨l', pubs', o'⟩ := r'
      obtain rfl : l' = l := hlistener'
      obtain ⟨rfl, rfl⟩ := hsame pubs' o' hperforms'
      subst hlistener
      cases r
      rfl
    obtain ⟨hlisteners, hperforms, hends, hunique⟩ := Reacts.all hreacts
    refine ⟨rfl, rfl, ⟨hlisteners, hperforms⟩, hends, fun T' hT' hevent htargets => ?_⟩
    obtain ⟨event', targets', rs'⟩ := T'
    obtain rfl : event' = event := hevent
    obtain rfl : targets' = targets := htargets
    rw [hunique rs' hT'.listeners hT'.performs]

/-! ### The recursion comes to an end -/

/-- More answers about events are more answers about behaviours. -/
theorem unfold_mono (hfg : ∀ event targets T, f event targets = some T → g event targets = some T)
    (h : v.unfold cast f = some (pubs, o)) : v.unfold cast g = some (pubs, o) := by
  induction v generalizing pubs with
  | returns | panics => exact h
  | aside => cases h
  | publishes event targets next ih =>
    obtain ⟨T, hT, hrest⟩ := Option.bind_eq_some_iff.1 h
    obtain ⟨⟨rest, o'⟩, hnext, heq⟩ := Option.bind_eq_some_iff.1 hrest
    cases heq
    exact Option.bind_eq_some_iff.2 ⟨T, hfg _ _ _ hT, Option.bind_eq_some_iff.2 ⟨_, ih _ hnext, rfl⟩⟩

theorem publication_mono {depth depth' : Nat} (hle : depth ≤ depth')
    (h : c.publication cast set depth event targets = some T) :
    c.publication cast set depth' event targets = some T := by
  induction depth generalizing depth' event targets T with
  | zero => cases h
  | succ depth ih =>
    obtain ⟨more, rfl⟩ := Nat.exists_eq_add_of_lt hle
    obtain ⟨rs, rfl, hrs⟩ := publication_succ.1 h
    refine publication_succ.2 ⟨rs, rfl, hrs.imp fun l r hr => ⟨unfold_mono (fun _ _ _ => ?_) hr.1, hr.2⟩⟩
    exact ih (Nat.le_add_right depth more)

/-- A behaviour leads to something if listeners may publish within listeners up to `depth` times. -/
def Unfolds (c : Family A) (cast : Cast) (set : List ListenerId) (depth : Nat) (v : Behaviour A)
    (pubs : List Publication) (o : Outcome) : Prop :=
  v.unfold cast (c.publication cast set depth) = some (pubs, o)

theorem Unfolds.mono {depth depth' : Nat} (hle : depth ≤ depth') (h : c.Unfolds cast set depth v pubs o) :
    c.Unfolds cast set depth' v pubs o :=
  unfold_mono (fun _ _ _ => publication_mono hle) h

/-- If each of the listeners that an event is meant for leads to something, so does the event. -/
theorem publication_of_unfolds
    (h : ∀ l ∈ set.filter (Bus.isMeant cast targets), ∃ depth pubs o, c.Unfolds cast set depth (c l event) pubs o) :
    ∃ depth T, c.publication cast set depth event targets = some T := by
  have hall : ∀ ls : List ListenerId, (∀ l ∈ ls, ∃ depth pubs o, c.Unfolds cast set depth (c l event) pubs o) →
      ∃ depth rs, List.Forall₂ (fun l (r : Reaction) =>
        c.Unfolds cast set depth (c l event) r.publications r.outcome ∧ r.listener = l) ls rs := by
    intro ls hls
    induction ls with
    | nil => exact ⟨0, [], .nil⟩
    | cons l rest ih =>
      obtain ⟨⟨depth, pubs, o, hunfolds⟩, hrest⟩ := List.forall_mem_cons.1 hls
      obtain ⟨depth', rs, hrs⟩ := ih hrest
      refine ⟨max depth depth', .mk l pubs o :: rs, .cons ⟨hunfolds.mono (Nat.le_max_left _ _), rfl⟩ ?_⟩
      exact hrs.imp fun _ _ hr => ⟨hr.1.mono (Nat.le_max_right _ _), hr.2⟩
  obtain ⟨depth, rs, hrs⟩ := hall _ h
  exact ⟨depth + 1, _, publication_succ.2 ⟨rs, rfl, hrs⟩⟩

/-- A behaviour that publishes finitely many events and does nothing else leads to something. -/
theorem Ends.unfolds (hplain : ∀ l event, (c l event).IsPlain) (h : c.Ends cast set v) (hv : v.IsPlain) :
    ∃ depth pubs o, c.Unfolds cast set depth v pubs o := by
  induction h with
  | returns o => exact ⟨0, [], o, rfl⟩
  | panics payload => exact ⟨0, [], _, rfl⟩
  | aside => exact hv.elim
  | publishes _ _ ih ihnext =>
    obtain ⟨depth, T, hT⟩ := publication_of_unfolds fun l hl => ih l hl (hplain l _)
    have hbecomes := publication_some hT
    obtain ⟨depth', pubs, o, hunfolds⟩ := ihnext T hbecomes.stems hbecomes.event_eq hbecomes.targets_eq (hv _)
    refine ⟨max depth depth', T :: pubs, o, Option.bind_eq_some_iff.2
      ⟨T, publication_mono (Nat.le_max_left _ _) hT, Option.bind_eq_some_iff.2 ⟨(pubs, o), ?_, rfl⟩⟩⟩
    exact hunfolds.mono (Nat.le_max_right _ _)

/-- **The recursion comes to an end** where nothing is done but publish finitely many events. -/
theorem IsFinite.publication (hplain : ∀ l event, (c l event).IsPlain)
    (h : c.IsFinite cast set event targets) : ∃ depth T, c.publication cast set depth event targets = some T :=
  publication_of_unfolds fun l hl => (h l hl).unfolds hplain (hplain l event)

end Family

end Orchestra
