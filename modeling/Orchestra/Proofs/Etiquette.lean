import Orchestra.Proofs.Run
import Orchestra.Publishing

/-!
# How programs use a bus

What a delivery is made of, a bus keeps to itself: a program looks for the delivery around it, begins one and
ends it only through the functions of the bus, and so always in the same order.

* `Standing`, `Standing.after` — where a program stands with the buses, and where an operation leads from
  there;
* `Program.Obeys` — a program performs only what its standing lets it;
* `Program.Obeys.bind`, `Program.Only.obeys_bind` — programs in sequence;
* `Bus.obeys_publish`, `Bus.obeys_visible` — the functions of a bus obey, and so does what is put together
  from them.
-/

namespace Orchestra

variable {A : Application} {α β : Type}

/-- Where a program stands with the buses. -/
inductive Standing where
  /-- It may use any bus. -/
  | free
  /-- It has found no delivery around it on the bus, and is about to read the listeners. -/
  | asking (bus : BusId)
  /-- It has begun a delivery, which it is to end. -/
  | delivering
  deriving DecidableEq, Repr

/-- Where an operation with its answer leads, unless it is out of place. -/
def Standing.after : Standing → (op : Op A) → op.Answer → Option Standing
  | free, .enclosing b, held => some (if held.isSome then free else asking b)
  | asking b, .beginDelivery b', _ => if b' = b then some delivering else none
  | asking b, .listeners b', _ => if b' = b then some free else none
  | delivering, .endDelivery, _ => some free
  | asking _, _, _ | _, .enclosing _, _ | _, .beginDelivery _, _ | _, .listeners _, _
  | _, .endDelivery, _ => none
  | s, _, _ => some s

/-- An operation that is part of the functions of a bus. -/
def Op.IsInternal : Op A → Prop
  | .enclosing _ | .beginDelivery _ | .endDelivery | .listeners _ => True
  | _ => False

/-- A program performs only what its standing lets it, and comes to its end free. -/
def Program.Obeys : Program A α → Standing → Prop
  | done _, s => s = .free
  | perform op next, s => ∀ x, ∃ s', s.after op x = some s' ∧ (next x).Obeys s'

/-- Everybody in a world obeys. -/
structure World.IsOrderly (w : World A) : Prop where
  body : ∀ callee, (w.body callee).Obeys .free
  job : ∀ j, (w.job j).Obeys .free

/-! ### Programs in sequence -/

theorem Standing.after_of_not_isInternal {s : Standing} {op : Op A} (hop : ¬ op.IsInternal)
    (hs : ∀ b, s ≠ .asking b) (x : op.Answer) : s.after op x = some s := by
  cases s with
  | asking b => exact absurd rfl (hs b)
  | free => cases op <;> first | rfl | exact absurd trivial hop
  | delivering => cases op <;> first | rfl | exact absurd trivial hop

theorem Standing.eq_of_after {s s' : Standing} {op : Op A} (hop : ¬ op.IsInternal) {x : op.Answer}
    (h : s.after op x = some s') : s' = s := by
  cases s with
  | asking b => cases op <;> first | cases h | exact absurd trivial hop
  | free => cases op <;> first | exact absurd trivial hop | exact (Option.some.inj h).symm
  | delivering => cases op <;> first | exact absurd trivial hop | exact (Option.some.inj h).symm

/-! What the operations of a bus ask of a standing, and where they lead from there. -/

section

variable {s s' : Standing} {b : BusId}

theorem Standing.of_after_enclosing {held : Option (List ListenerId)}
    (h : s.after (.enclosing b : Op A) held = some s') :
    s = .free ∧ s' = if held.isSome then .free else .asking b := by
  cases s <;> simp_all [Standing.after]

theorem Standing.of_after_beginDelivery {set : List ListenerId}
    (h : s.after (.beginDelivery b : Op A) set = some s') : s = .asking b ∧ s' = .delivering := by
  cases s <;> simp_all [Standing.after]

theorem Standing.of_after_listeners {set : List ListenerId}
    (h : s.after (.listeners b : Op A) set = some s') : s = .asking b ∧ s' = .free := by
  cases s <;> simp_all [Standing.after]

theorem Standing.of_after_endDelivery {x : Unit} (h : s.after (.endDelivery : Op A) x = some s') :
    s = .delivering ∧ s' = .free := by
  cases s <;> simp_all [Standing.after]

end

namespace Program

/-- After an operation that anybody may perform, a program stands where it stood. -/
theorem Obeys.next {op : Op A} {next : op.Answer → Program A α} {s : Standing}
    (h : (perform op next).Obeys s) (hop : ¬ op.IsInternal) (x : op.Answer) : (next x).Obeys s := by
  obtain ⟨s', hafter, hnext⟩ := h x
  rwa [← Standing.eq_of_after hop hafter]

theorem Obeys.of_enclosing {b : BusId} {next : Option (List ListenerId) → Program A α}
    {s : Standing} (h : (perform (.enclosing b) next).Obeys s) :
    s = .free ∧ ∀ held, (next held).Obeys (if held.isSome then .free else .asking b) := by
  have hafter : ∀ held, s = .free ∧
      (next held).Obeys (if held.isSome then .free else .asking b) := by
    intro held
    obtain ⟨s', hafter, hnext⟩ := h held
    obtain ⟨rfl, rfl⟩ := Standing.of_after_enclosing hafter
    exact ⟨rfl, hnext⟩
  exact ⟨(hafter none).1, fun held => (hafter held).2⟩

theorem Obeys.of_beginDelivery {b : BusId} {next : List ListenerId → Program A α} {s : Standing}
    (h : (perform (.beginDelivery b) next).Obeys s) :
    s = .asking b ∧ ∀ set, (next set).Obeys .delivering := by
  have hafter : ∀ set, s = .asking b ∧ (next set).Obeys .delivering := by
    intro set
    obtain ⟨s', hafter, hnext⟩ := h set
    obtain ⟨rfl, rfl⟩ := Standing.of_after_beginDelivery hafter
    exact ⟨rfl, hnext⟩
  exact ⟨(hafter []).1, fun set => (hafter set).2⟩

theorem Obeys.of_listeners {b : BusId} {next : List ListenerId → Program A α} {s : Standing}
    (h : (perform (.listeners b) next).Obeys s) :
    s = .asking b ∧ ∀ set, (next set).Obeys .free := by
  have hafter : ∀ set, s = .asking b ∧ (next set).Obeys .free := by
    intro set
    obtain ⟨s', hafter, hnext⟩ := h set
    obtain ⟨rfl, rfl⟩ := Standing.of_after_listeners hafter
    exact ⟨rfl, hnext⟩
  exact ⟨(hafter []).1, fun set => (hafter set).2⟩

theorem Obeys.of_endDelivery {next : Unit → Program A α} {s : Standing}
    (h : (perform .endDelivery next).Obeys s) : s = .delivering ∧ (next ()).Obeys .free := by
  obtain ⟨s', hafter, hnext⟩ := h ()
  obtain ⟨rfl, rfl⟩ := Standing.of_after_endDelivery hafter
  exact ⟨rfl, hnext⟩

theorem obeys_pure (a : α) : (pure a : Program A α).Obeys .free := rfl

/-- An operation that anybody may perform at any time. -/
theorem obeys_perform {op : Op A} {next : op.Answer → Program A α} {s : Standing}
    (hop : ¬ op.IsInternal) (hs : ∀ b, s ≠ .asking b) (h : ∀ x, (next x).Obeys s) :
    (perform op next).Obeys s :=
  fun x => ⟨s, Standing.after_of_not_isInternal hop hs x, h x⟩

theorem obeys_ask {op : Op A} (hop : ¬ op.IsInternal) : (ask op).Obeys .free :=
  obeys_perform hop nofun fun _ => rfl

theorem Obeys.bind {p : Program A α} {f : α → Program A β} {s : Standing} (hp : p.Obeys s)
    (hf : ∀ a, (f a).Obeys .free) : (p >>= f).Obeys s := by
  show (p.bind f).Obeys s
  induction p generalizing s with
  | done a =>
    obtain rfl : s = .free := hp
    exact hf a
  | perform op next ih =>
    intro x
    obtain ⟨s', hafter, hnext⟩ := hp x
    exact ⟨s', hafter, ih x hnext⟩

/-- What may be performed at any time leaves a program where it stands. -/
theorem Only.obeys_bind {p : Program A α} {f : α → Program A β} {s : Standing}
    (hp : p.Only fun op => ¬ op.IsInternal) (hs : ∀ b, s ≠ .asking b) (hf : ∀ a, (f a).Obeys s) :
    (p >>= f).Obeys s := by
  show (p.bind f).Obeys s
  induction p with
  | done a => exact hf a
  | perform op next ih => exact obeys_perform hp.1 hs fun x => ih x (hp.2 x)

theorem Only.obeys {p : Program A α} (hp : p.Only fun op => ¬ op.IsInternal) : p.Obeys .free := by
  have h : (p >>= pure).Obeys .free := hp.obeys_bind nofun fun _ => rfl
  rwa [bind_pure] at h

end Program

/-! ### The functions of a bus -/

namespace Bus

variable {cast : Cast} {b : BusId}

theorem only_deliver_not_isInternal (set : List ListenerId) (event : Event)
    (targets : Option TargetSet) :
    (deliver (A := A) cast b set event targets).Only fun op => ¬ op.IsInternal := by
  unfold deliver
  generalize ({} : Delivery) = d
  induction set.filter (isMeant cast targets) generalizing d with
  | nil => exact Program.only_pure d
  | cons l rest ih =>
    refine Program.only_bind (Program.only_ask id) fun o => ?_
    cases o with
    | ok => exact ih _
    | error e => exact Program.only_bind (Program.only_ask id) fun _ => ih _

theorem only_noteUnmatched_not_isInternal (event : Event) (targets : Option TargetSet)
    (d : Delivery) : (noteUnmatched (A := A) event targets d).Only fun op => ¬ op.IsInternal := by
  unfold noteUnmatched
  split
  · split
    · exact Program.only_ask id
    · exact Program.only_pure ()
  · exact Program.only_pure ()

/-- Delivering an event: the delivery that is begun is ended. -/
theorem obeys_publish (cast : Cast) (b : BusId) (event : Event) (targets : Option TargetSet) :
    (publish (A := A) cast b event targets).Obeys .free := by
  intro held
  cases held with
  | some set => exact ⟨.free, rfl, (only_deliver_not_isInternal set event targets).obeys⟩
  | none =>
    refine ⟨.asking b, rfl, fun set => ⟨.delivering, if_pos rfl, ?_⟩⟩
    refine (only_deliver_not_isInternal set event targets).obeys_bind nofun fun d => ?_
    refine fun _ => ⟨.free, rfl, ?_⟩
    exact (only_noteUnmatched_not_isInternal event targets d).obeys.bind fun _ => rfl

/-- Looking at the listeners. -/
theorem obeys_visible (b : BusId) : (visible (A := A) b).Obeys .free := by
  intro held
  cases held with
  | some set => exact ⟨.free, rfl, rfl⟩
  | none => exact ⟨.asking b, rfl, fun set => ⟨.free, if_pos rfl, rfl⟩⟩

theorem obeys_contains (b : BusId) (l : ListenerId) : (contains (A := A) b l).Obeys .free :=
  (obeys_visible b).bind fun _ => rfl

theorem obeys_size (b : BusId) : (size (A := A) b).Obeys .free := (obeys_visible b).bind fun _ => rfl

theorem obeys_isEmpty (b : BusId) : (isEmpty (A := A) b).Obeys .free :=
  (obeys_visible b).bind fun _ => rfl

theorem obeys_dispatch (cast : Cast) (b : BusId) (key : EventKey) (as : Arguments)
    (targets : Option TargetSet) : (dispatch (A := A) cast b key as targets).Obeys .free := by
  unfold dispatch
  split
  · exact Program.obeys_pure _
  · next event _ => exact Program.Obeys.bind (obeys_publish cast b event targets) fun _ => rfl

theorem obeys_edit (e : Edit) (r : Record) : (do
    let changed ← .ask (A := A) (.edit b e)
    if changed then .ask (.record r)
    return changed : Program A Bool).Obeys .free := by
  refine (Program.obeys_ask id).bind fun changed => ?_
  cases changed with
  | true => exact (Program.obeys_ask id).bind fun _ => rfl
  | false => exact Program.obeys_pure _

theorem obeys_register (cast : Cast) (b : BusId) (l : ListenerId) :
    (register (A := A) cast b l).Obeys .free :=
  obeys_edit _ _

theorem obeys_unregister (cast : Cast) (b : BusId) (l : ListenerId) :
    (unregister (A := A) cast b l).Obeys .free :=
  obeys_edit _ _

end Bus

end Orchestra
