import Orchestra.Console.Session
import Orchestra.Proofs.Assembly
import Orchestra.Proofs.Forwarding
import Orchestra.Proofs.Keeping

/-!
# How far a session has come

Until the console's worker asks for it, the main program of a session neither tells anybody to stop nor takes anybody
off the bus.  That depends on what it has been answered: a launch that has failed is followed by a shutdown, and so is
a wait for the end.

* `IsMild` — an operation after which the parts go on undisturbed, and the worker is the only one of its kind;
* `Footing`, `Footing.Allows`, `Footing.after` — how far the main program has come, what it may ask for, and where it
  gets with the answer;
* `Treads` — a program asks only for what its footing allows;
* `hook_mild`, `onEvent_mild`, `giveSigns_mild` — what the parts do is mild, but for the launch of the console;
* `launch_treads`, `serve_treads`, `session_treads` — so the main program keeps its footing.
-/

namespace Orchestra.Console

open Machine

variable {α β : Type}

/-! ### Mild operations -/

/-- An operation that cancels nothing, takes nobody off a bus, starts nobody but who gives signs of life, and does not
launch the console. -/
def IsMild : Op app → Prop
  | .cancel _ | .edit _ (.remove _) | .spawn .. => False
  | .hire _ _ job => ∃ c, job = Job.heartbeat c
  | .call (.hook m p _) _ => m = Part.console.id → p ≠ .launch
  | _ => True

/-- A mild operation, or one that parts the modules. -/
def IsLoose (op : Op app) : Prop := IsMild op ∨ (∃ token, op = .cancel token) ∨ ∃ b l, op = .edit b (.remove l)

section

variable {op : Op app}

theorem mild_of_publishes (h : op.Publishes) : IsMild op := by
  unfold Op.Publishes at h
  split at h
  all_goals trivial

theorem mild_of_prepares (h : op.Prepares) : IsMild op := by
  unfold Op.Prepares at h
  split at h
  all_goals trivial

theorem mild_of_callsHooks {p : Phase} (hp : p ≠ .launch) (h : op.CallsHooks p) : IsMild op := by
  unfold Op.CallsHooks at h
  split at h
  case h_1 => exact fun _ heq => hp (h.symm.trans heq)
  all_goals trivial

theorem mild_of_awaitsEnd {request : TokenId} (h : op.AwaitsEnd request) : IsMild op := by
  unfold Op.AwaitsEnd at h
  split at h
  all_goals trivial

theorem loose_of_dismisses (h : op.Dismisses) : IsLoose op := by
  unfold Op.Dismisses at h
  split at h
  case h_1 token => exact .inr (.inl ⟨token, rfl⟩)
  case h_4 b l => exact .inr (.inr ⟨b, l, rfl⟩)
  all_goals first | exact .inl trivial | exact h.elim

end

/-! ### What the parts do -/

section Parts

variable (around : Surroundings)

theorem say_mild (level : Level) (message : String) (fields : List Field) : (say level message fields).Only IsMild :=
  Program.only_ask trivial

theorem handOut_mild (c : Kit) (token : String) (services : List String) : (handOut c token services).Only IsMild := by
  induction services with
  | nil => exact Program.only_pure ()
  | cons service rest ih =>
    exact Program.only_bind ((Bus.publish_publishes ..).mono fun _ => mild_of_publishes) fun _ => ih

/-- **No hook does any harm**, but the launch of the console. -/
theorem hook_mild (part : Part) (p : Phase) (c : Kit) (h : part = .console → p ≠ .launch) :
    (hook around part p c).Only IsMild := by
  unfold hook
  split
  case h_2 => exact Program.only_bind (handOut_mild ..) fun _ => Program.only_bind (Program.only_ask trivial) fun _ =>
    Program.only_pure _
  case h_3 => exact absurd rfl (h rfl)
  case h_4 => exact Program.only_bind (say_mild ..) fun _ => Program.only_pure _
  case h_5 =>
    refine Program.only_bind (Program.only_ask trivial) fun known => ?_
    split
    · exact Program.only_bind (Program.only_ask trivial) fun _ => Program.only_bind (say_mild ..) fun _ =>
        Program.only_pure _
    · exact Program.only_bind (Program.only_ask trivial) fun _ => Program.only_pure _
  case h_6 =>
    exact ⟨trivial, fun _ => ⟨⟨c, rfl⟩, fun _ => ⟨trivial, fun _ => trivial⟩⟩⟩
  case h_7 => exact Program.only_bind (Program.only_ask trivial) fun _ => Program.only_pure _
  all_goals exact Program.only_pure _

theorem onEvent_mild (part : Part) (event : Event) : (onEvent part event).Only IsMild := by
  unfold onEvent
  split
  case h_1 => exact Program.only_bind (Program.only_ask trivial) fun _ => Program.only_pure _
  case h_2 => exact Program.only_bind (say_mild ..) fun _ => Program.only_pure _
  case h_3 => exact Program.only_bind (say_mild ..) fun _ => Program.only_pure _
  case h_4 => exact Program.only_bind (Program.only_ask trivial) fun _ => Program.only_pure _
  case h_5 => exact Program.only_pure _

/-- Whoever is called with a mild operation does nothing else. -/
theorem world_confines : (world around).Confines IsMild := by
  intro callee limit h
  dsimp only [world]
  cases callee with
  | hook m p c =>
    dsimp only
    cases hpart : Part.ofId? m with
    | none => exact Program.only_pure _
    | some part =>
      refine hook_mild around part p c fun hconsole => h ?_
      rw [Part.eq_id_of_ofId? hpart, hconsole]
  | onEvent l event =>
    dsimp only
    cases Part.ofId? l with
    | none => exact Program.only_pure _
    | some part => exact onEvent_mild part event
  | prepare l => exact Program.only_pure _

theorem giveSigns_mild (c : Kit) (left beat : Nat) : (giveSigns c left beat).Only IsMild := by
  induction left generalizing beat with
  | zero => exact Program.only_ask trivial
  | succ left ih =>
    refine Program.only_bind ((Bus.publish_publishes ..).mono fun _ => mild_of_publishes) fun _ => ?_
    refine Program.only_bind (Program.only_ask trivial) fun told => ?_
    split
    · exact Program.only_pure ()
    · exact ih _

end Parts

/-! ### Footing -/

/-- How far the main program of a session has come. -/
inductive Footing where
  /-- The parts are being put together. -/
  | building
  /-- They have been: the gateway is on the bus. -/
  | gathered
  /-- The worker has been started, and the process goes on until it is asked to end. -/
  | serving (request : TokenId)
  /-- The parts are being taken apart. -/
  | closing

namespace Footing

/-- What the main program may ask for. -/
def Allows : Footing → Op app → Prop
  | building, op => IsMild op
  | gathered, op => IsLoose op ∨ ∃ c limit, op = .call (.hook Part.console.id .launch c) limit ∧ c.bus = bus
  | serving request, op => IsMild op ∧
      (∀ token, op = .awaitTermination token ∨ op = .awaitCancel token → token = request) ∧
      ∀ c limit, op ≠ .call (.hook Part.credentials.id .launch c) limit
  | closing, op => IsLoose op

/-- Where it gets with an answer, unless that cannot be the answer: the launch of the console does not fail, nor does
any launch after it. -/
def after : Footing → (op : Op app) → op.Answer → Option Footing
  | building, .edit b (.add l), _ => some (if b = bus ∧ l = Part.gateway.id then gathered else building)
  | gathered, .cancel _, _ => some closing
  | gathered, .edit _ (.remove _), _ => some closing
  | gathered, .call (.hook m .launch c) _, .ok _ => some (if m = Part.console.id then serving c.request else gathered)
  | gathered, .call (.hook m .launch _) _, .error _ => if m = Part.console.id then none else some gathered
  | serving _, .call (.hook _ .launch _) _, .error _ => none
  | serving request, .awaitTermination _, .unavailable _ => some (serving request)
  | serving _, .awaitTermination _, _ => some closing
  | serving _, .awaitCancel _, _ => some closing
  | footing, _, _ => some footing

/-- An operation that leads nowhere else. -/
def Bears (footing : Footing) (op : Op app) : Prop :=
  footing.Allows op ∧ ∀ a, footing.after op a = some footing

variable {op : Op app}

theorem bears_gathered (h : IsMild op) : gathered.Bears op := by
  refine ⟨.inl (.inl h), fun a => ?_⟩
  cases op with
  | cancel token => exact h.elim
  | edit b e => cases e with
    | add l => rfl
    | remove l => exact h.elim
  | call callee limit => cases callee with
    | hook m p c =>
      cases p with
      | launch =>
        have hm : m ≠ Part.console.id := fun hm => h hm rfl
        cases a with
        | ok _ => exact congrArg some (if_neg hm)
        | error _ => exact if_neg hm
      | _ => rfl
    | _ => rfl
  | _ => rfl

theorem bears_serving {request : TokenId} (h : IsMild op)
    (hwaits : ∀ token, op ≠ .awaitTermination token ∧ op ≠ .awaitCancel token)
    (hlaunch : ∀ m c limit, op ≠ .call (.hook m .launch c) limit) : (serving request).Bears op := by
  refine ⟨⟨h, fun token heq => ?_, fun c limit => hlaunch _ c limit⟩, fun a => ?_⟩
  · rcases heq with heq | heq
    · exact absurd heq (hwaits token).1
    · exact absurd heq (hwaits token).2
  · cases op with
    | awaitTermination token => exact absurd rfl (hwaits token).1
    | awaitCancel token => exact absurd rfl (hwaits token).2
    | call callee limit => cases callee with
      | hook m p c =>
        cases p with
        | launch => exact absurd rfl (hlaunch m c limit)
        | _ => rfl
      | _ => rfl
    | _ => rfl

/-- Publishing leads nowhere, before the worker is started or after that. -/
theorem bears_of_publishes {footing : Footing} {request : TokenId}
    (hfooting : footing = gathered ∨ footing = serving request) (h : op.Publishes) : footing.Bears op := by
  rcases hfooting with rfl | rfl
  · exact bears_gathered (mild_of_publishes h)
  · refine bears_serving (mild_of_publishes h) (fun token => ⟨?_, ?_⟩) fun m c limit => ?_
    all_goals
      rintro rfl
      exact h

/-- Whatever parts the modules leads to the end, and is allowed only where there is something to part. -/
theorem after_parting {s : Footing} (hallows : s.Allows op) (hparts : (∃ token, op = .cancel token) ∨
    ∃ b l, op = .edit b (.remove l)) :
    (s = gathered ∨ s = closing) ∧ ∀ a s', s.after op a = some s' → s' = closing := by
  obtain ⟨token, rfl⟩ | ⟨b, l, rfl⟩ := hparts
  all_goals
    cases s with
    | building => exact hallows.elim
    | serving request => exact hallows.1.elim
    | gathered => exact ⟨.inl rfl, fun _ _ h => (Option.some.inj h).symm⟩
    | closing => exact ⟨.inr rfl, fun _ _ h => (Option.some.inj h).symm⟩

/-- Nobody else is started. -/
theorem mild_of_starts {s : Footing} (hallows : s.Allows op)
    (hstarts : (∃ name job, op = .spawn name job) ∨ ∃ crew name job, op = .hire crew name job) : IsMild op := by
  obtain ⟨name, job, rfl⟩ | ⟨crew, name, job, rfl⟩ := hstarts
  all_goals
    cases s with
    | building => exact hallows
    | serving request => exact hallows.1
    | gathered => simpa [Allows, IsLoose] using hallows
    | closing => simpa [Allows, IsLoose] using hallows

/-- Where the main program gets without calling anybody. -/
inductive Path : Footing → Exchange app → Footing → Prop where
  | stays (s : Footing) (y : Exchange app) : Path s y s
  | gathers (a : Bool) : Path building ⟨.edit bus (.add Part.gateway.id), a⟩ gathered
  | fails (y : Exchange app) : Path gathered y closing
  | requested (request : TokenId) : Path (serving request) ⟨.awaitTermination request, .requested⟩ closing
  | signalled (request : TokenId) (g : Signal) : Path (serving request) ⟨.awaitTermination request, .signal g⟩ closing
  | awaited (request : TokenId) (a : Unit) : Path (serving request) ⟨.awaitCancel request, a⟩ closing

/-- It gets somewhere with every answer. -/
theorem exists_path {s : Footing} (hallows : s.Allows op) (hcall : ∀ callee limit, op ≠ .call callee limit)
    (a : op.Answer) : ∃ s', s.after op a = some s' ∧ Path s ⟨op, a⟩ s' := by
  cases s with
  | building =>
    cases op with
    | edit b e => cases e with
      | add l =>
        by_cases h : b = bus ∧ l = Part.gateway.id
        · obtain ⟨rfl, rfl⟩ := h
          exact ⟨_, rfl, .gathers a⟩
        · exact ⟨building, congrArg some (if_neg h), .stays _ _⟩
      | remove l => exact hallows.elim
    | _ => exact ⟨_, rfl, .stays _ _⟩
  | gathered =>
    cases op with
    | cancel token => exact ⟨_, rfl, .fails _⟩
    | edit b e => cases e with
      | add l => exact ⟨_, rfl, .stays _ _⟩
      | remove l => exact ⟨_, rfl, .fails _⟩
    | call callee limit => exact absurd rfl (hcall callee limit)
    | _ => exact ⟨_, rfl, .stays _ _⟩
  | serving request =>
    cases op with
    | call callee limit => exact absurd rfl (hcall callee limit)
    | awaitCancel token =>
      obtain rfl := hallows.2.1 token (.inr rfl)
      exact ⟨_, rfl, .awaited _ a⟩
    | awaitTermination token =>
      obtain rfl := hallows.2.1 token (.inl rfl)
      cases a with
      | requested => exact ⟨_, rfl, .requested _⟩
      | signal g => exact ⟨_, rfl, .signalled _ g⟩
      | unavailable error => exact ⟨_, rfl, .stays _ _⟩
    | _ => exact ⟨_, rfl, .stays _ _⟩
  | closing => exact ⟨_, rfl, .stays _ _⟩

end Footing

open Footing

/-- A program asks for what its footing allows, whatever it is answered. -/
def Treads (post : Footing → α → Prop) : Program app α → Footing → Prop
  | .done a, footing => post footing a
  | .perform op next, footing => footing.Allows op ∧
      ∀ a footing', footing.after op a = some footing' → Treads post (next a) footing'

section Treads

variable {p : Program app α} {footing : Footing} {mid : Footing → α → Prop} {post post' : Footing → β → Prop}

theorem Treads.mono {q : Program app β} (h : Treads post q footing)
    (hpost : ∀ footing b, post footing b → post' footing b) : Treads post' q footing := by
  induction q generalizing footing with
  | done b => exact hpost footing b h
  | perform op next ih => exact ⟨h.1, fun a footing' hafter => ih a (h.2 a footing' hafter)⟩

/-- The second of two programs starts where the first has come to. -/
theorem treads_bind {f : α → Program app β} (hp : Treads mid p footing)
    (hf : ∀ footing a, mid footing a → Treads post (f a) footing) : Treads post (p >>= f) footing := by
  show Treads post (p.bind f) footing
  induction p generalizing footing with
  | done a => exact hf footing a hp
  | perform op next ih => exact ⟨hp.1, fun a footing' hafter => ih a (hp.2 a footing' hafter)⟩

/-- What a program comes to is what it comes to in some run. -/
theorem Treads.with_run {R : β → Prop} {q : Program app β} (h : Treads post q footing)
    (hrun : ∀ tr b, Program.Run q tr b → R b) : Treads (fun footing b => post footing b ∧ R b) q footing := by
  induction q generalizing footing with
  | done b => exact ⟨h, hrun [] b (.done b)⟩
  | perform op next ih =>
    exact ⟨h.1, fun a footing' hafter => ih a (h.2 a footing' hafter) fun tr b hb => hrun _ b (.perform a hb)⟩

/-- A program that asks for nothing special stays where it is. -/
theorem treads_of_only (hp : p.Only footing.Bears) : Treads (fun footing' _ => footing' = footing) p footing := by
  induction p with
  | done a => rfl
  | perform op next ih =>
    refine ⟨hp.1.1, fun a footing' hafter => ?_⟩
    obtain rfl := Option.some.inj ((hp.1.2 a).symm.trans hafter)
    exact ih a (hp.2 a)

theorem treads_only_bind {f : α → Program app β} (hp : p.Only footing.Bears) (hf : ∀ a, Treads post (f a) footing) :
    Treads post (p >>= f) footing :=
  treads_bind (treads_of_only hp) fun _ a heq => heq ▸ hf a

/-- One operation. -/
theorem treads_ask_bind {op : Op app} {f : op.Answer → Program app β} (hop : footing.Allows op)
    (hf : ∀ a footing', footing.after op a = some footing' → Treads post (f a) footing') :
    Treads post (Program.ask op >>= f) footing :=
  ⟨hop, hf⟩

end Treads

/-- Parting the modules leads nowhere but to the end. -/
theorem treads_of_loose {p : Program app α} {footing : Footing} (hp : p.Only IsLoose)
    (hfooting : footing = .gathered ∨ footing = .closing) :
    Treads (fun footing _ => footing = .gathered ∨ footing = .closing) p footing := by
  induction p generalizing footing with
  | done a => exact hfooting
  | perform op next ih =>
    rcases hfooting with rfl | rfl
    · refine ⟨.inl hp.1, fun a footing' hafter => ih a (hp.2 a) ?_⟩
      rcases hp.1 with hmild | ⟨token, rfl⟩ | ⟨b, l, rfl⟩
      · exact .inl (Option.some.inj (((bears_gathered hmild).2 a).symm.trans hafter)).symm
      · exact .inr (Option.some.inj hafter).symm
      · exact .inr (Option.some.inj hafter).symm
    · refine ⟨hp.1, fun a footing' hafter => ih a (hp.2 a) (.inr ?_)⟩
      exact (Option.some.inj hafter).symm

/-- Building ends with the gateway on the bus, unless it has not asked for that. -/
theorem treads_of_builds {p : Program app α} (hp : p.Only Op.Builds) :
    Treads (fun footing a => footing = .gathered ∨
      footing = .building ∧ ∃ tr, p.Run tr a ∧ .add Part.gateway.id ∉ changesTo bus tr) p .building := by
  have hmild : ∀ op : Op app, op.Builds → IsMild op := by
    intro op hop
    unfold Op.Builds at hop
    split at hop
    all_goals trivial
  induction p with
  | done a => exact .inr ⟨rfl, [], .done a, List.not_mem_nil⟩
  | perform op next ih =>
    refine ⟨hmild op hp.1, fun a footing' hafter => ?_⟩
    have hstays : (Exchange.mk op a).changeTo bus ≠ some (.add Part.gateway.id) → footing' = .building →
        Treads (fun footing a => footing = .gathered ∨ footing = .building ∧ ∃ tr, (Program.perform op next).Run tr a ∧
          .add Part.gateway.id ∉ changesTo bus tr) (next a) footing' := by
      rintro hchange rfl
      refine (ih a (hp.2 a)).mono fun footing b hb => hb.imp_right fun ⟨hbuilding, tr, hrun, hnone⟩ =>
        ⟨hbuilding, ⟨op, a⟩ :: tr, .perform a hrun, fun hmem => ?_⟩
      rw [changesTo_cons] at hmem
      rcases List.mem_append.1 hmem with hhere | hlater
      · exact hchange (Option.mem_toList.1 hhere)
      · exact hnone hlater
    cases op with
    | edit b e =>
      cases e with
      | add l =>
        by_cases hgateway : b = bus ∧ l = Part.gateway.id
        · obtain rfl := Option.some.inj ((congrArg some (if_pos hgateway)).symm.trans hafter)
          have hbears : (next a).Only gathered.Bears := (hp.2 a).mono fun op hop => bears_gathered (hmild op hop)
          exact (treads_of_only hbears).mono fun footing b heq => .inl heq
        · have hafter' := Option.some.inj ((congrArg some (if_neg hgateway)).symm.trans hafter)
          refine hstays (fun heq => hgateway ?_) hafter'.symm
          obtain ⟨hb, hl⟩ := Option.ite_none_right_eq_some.1 heq
          exact ⟨hb, Edit.add.inj (Option.some.inj hl)⟩
      | remove l => exact hp.1.elim
    | newToken _ => exact hstays nofun (Option.some.inj hafter).symm
    | newCrew => exact hstays nofun (Option.some.inj hafter).symm
    | record _ => exact hstays nofun (Option.some.inj hafter).symm
    | _ => exact hp.1.elim

/-! ### The main program -/

section Main

variable {r : TokenId} {name : String} {e : Ensemble} {passed rest slots : List Slot} {faults : List Fault}
  {footing : Footing}

/-- The modules have been given the bus, and a token that asks for a shutdown. -/
def Suits (r : TokenId) (slots : List Slot) : Prop := ∀ s ∈ slots, s.kit.bus = bus ∧ s.kit.request = r

/-- Whom the launch has come to: once the worker has been started, only modules are left that are launched without
waiting for anything. -/
def Paced (r : TokenId) (rest : List Slot) (footing : Footing) : Prop :=
  footing = .gathered ∧ rest.map Slot.module <:+ [0, 1, 2, 3] ∨
    footing = .serving r ∧ rest.map Slot.module <:+ [2, 3]

theorem Suits.tail {s : Slot} (h : Suits r (s :: rest)) : Suits r rest := fun t ht => h t (List.mem_cons_of_mem _ ht)

theorem Paced.tail {s : Slot} (h : Paced r (s :: rest) footing) : Paced r rest footing := by
  have hsuffix := List.suffix_cons s.module (rest.map Slot.module)
  exact h.imp (fun h => ⟨h.1, hsuffix.trans h.2⟩) fun h => ⟨h.1, hsuffix.trans h.2⟩

/-- The launch of one more module. -/
theorem Paced.cases {s : Slot} (h : Paced r (s :: rest) footing) :
    (footing = .gathered ∧ s.module ≠ Part.console.id ∧ Paced r rest .gathered) ∨
      (footing = .gathered ∧ s.module = Part.console.id ∧ Paced r rest (.serving r)) ∨
        footing = .serving r ∧ (s.module ≠ Part.console.id ∧ s.module ≠ Part.credentials.id) ∧
          Paced r rest (.serving r) := by
  have htail := h.tail
  rcases h with ⟨rfl, hrest⟩ | ⟨rfl, hrest⟩
  · by_cases hm : s.module = Part.console.id
    · refine .inr (.inl ⟨rfl, hm, .inr ⟨rfl, ?_⟩⟩)
      rw [List.map_cons, hm] at hrest
      rcases List.suffix_cons_iff.1 hrest with heq | hlater
      · cases heq
      · rcases List.suffix_cons_iff.1 hlater with heq | hlater
        · exact (List.cons.inj heq).2 ▸ List.suffix_refl _
        · have hone : Part.console.id ∈ [2, 3] := hlater.subset List.mem_cons_self
          exact absurd hone (by decide)
    · exact .inl ⟨rfl, hm, htail⟩
  · have hm : s.module ∈ [2, 3] := hrest.subset List.mem_cons_self
    refine .inr (.inr ⟨rfl, ⟨?_, ?_⟩, htail⟩)
    all_goals
      intro heq
      rw [heq] at hm
      exact absurd hm (by decide)

theorem Paced.bears {op : Op app} (h : Paced r rest footing) (hop : op.Publishes) : footing.Bears op :=
  bears_of_publishes (h.imp And.left And.left) hop

theorem Paced.bears_keep (h : Paced r rest footing) (name : String) (e : Ensemble) : footing.Bears (.keep name e) := by
  rcases h with ⟨rfl, -⟩ | ⟨rfl, -⟩
  · exact bears_gathered trivial
  · exact bears_serving trivial (fun token => ⟨nofun, nofun⟩) fun m c limit => nofun

/-- **The modules are launched**: with the console the worker is started, and nobody fails after that. -/
theorem runSlots_launch_treads {ran : Nat} (hsuits : Suits r rest) (hpaced : Paced r rest footing) :
    Treads (fun footing P => footing = .gathered ∨ footing = .serving r ∧ P.aborted = none)
      (Ensemble.runSlots cast name e .launch ran passed faults rest) footing := by
  induction rest generalizing ran passed faults footing with
  | nil =>
    refine treads_only_bind (Program.only_ask (hpaced.bears trivial)) fun _ => ?_
    refine treads_only_bind ((Bus.publish_publishes ..).mono fun _ => hpaced.bears) fun _ => ?_
    rcases hpaced with ⟨rfl, -⟩ | ⟨rfl, -⟩
    · exact .inl rfl
    · exact .inr ⟨rfl, rfl⟩
  | cons s rest ih =>
    -- A hook that does not fail is noted, and the next module is launched.
    have hnext : ∀ {footing : Footing} {ran : Nat} {passed passed' : List Slot} {faults : List Fault},
        Paced r rest footing → Treads (fun footing P => footing = .gathered ∨ footing = .serving r ∧ P.aborted = none)
          (Ensemble.keepSlots name e passed' >>= fun _ =>
            Ensemble.runSlots cast name e .launch ran passed faults rest) footing := by
      intro footing ran passed passed' faults hpaced
      exact treads_only_bind (Program.only_ask (hpaced.bears_keep ..)) fun _ => ih hsuits.tail hpaced
    rw [Ensemble.runSlots]
    split
    · exact ih hsuits.tail hpaced.tail
    rcases hpaced.cases with ⟨rfl, hm, hrest⟩ | ⟨rfl, hm, hrest⟩ | ⟨rfl, ⟨hconsole, hcredentials⟩, hrest⟩
    · -- Before the console is launched, a module may fail.
      have hfault : ∀ failure escalated, (Ensemble.announceFault (A := app) cast e.bus (cast.name s.module) .launch
          failure escalated).Only gathered.Bears := fun failure escalated =>
        (Ensemble.announceFault_publishes ..).mono fun _ => hrest.bears
      refine treads_ask_bind (.inl (.inl fun heq => absurd heq hm)) fun o footing' hafter => ?_
      cases o with
      | ok _ =>
        obtain rfl := Option.some.inj ((congrArg some (if_neg hm)).symm.trans hafter)
        exact hnext hrest
      | error failure =>
        obtain rfl := Option.some.inj ((if_neg hm).symm.trans hafter)
        dsimp only
        split
        · refine treads_only_bind (Program.only_ask (hrest.bears trivial)) fun _ => ?_
          exact treads_only_bind (hfault ..) fun _ => .inl rfl
        · refine treads_only_bind (Program.only_ask (hrest.bears_keep ..)) fun _ => ?_
          refine treads_only_bind (Program.only_ask (hrest.bears trivial)) fun _ => ?_
          exact treads_only_bind (hfault ..) fun _ => ih hsuits.tail hrest
    · obtain ⟨hbus, hrequest⟩ := hsuits s List.mem_cons_self
      refine treads_ask_bind (.inr ⟨s.kit, _, by rw [hm], hbus⟩) fun o footing' hafter => ?_
      cases o with
      | ok _ =>
        obtain rfl := Option.some.inj ((congrArg some (if_pos hm)).symm.trans hafter)
        rw [hrequest]
        exact hnext hrest
      | error failure => cases (if_pos hm).symm.trans hafter
    · refine treads_ask_bind ⟨fun heq => absurd heq hconsole, fun token heq => ?_, fun c limit heq => ?_⟩
        fun o footing' hafter => ?_
      · rcases heq with heq | heq <;> cases heq
      · exact hcredentials (Callee.hook.inj (Op.call.inj heq).1).1
      · cases o with
        | ok _ =>
          obtain rfl := Option.some.inj hafter
          exact hnext hrest
        | error failure => cases hafter

/-! Before anybody is launched the slots hold the same modules, with the same kits. -/

/-- What never changes of a slot. -/
def fixed (s : Slot) : ListenerId × Kit := (s.module, s.kit)

theorem fixed_of_assertions {ds : List Deed} {P : Progress} (h : AssertionCourse cast passed rest ds P) :
    P.slots.map fixed = (passed ++ rest).map fixed := by
  induction h with
  | done passed => rw [List.append_nil]
  | failed passed rest s f => rfl
  | held _ ih => simpa [fixed] using ih

theorem fixed_of_phase {ds : List Deed} {P : Progress} {p : Phase} (h : PhaseCourse cast p passed faults rest ds P) :
    P.slots.map fixed = (passed ++ rest).map fixed := by
  induction h with
  | done passed faults => rw [List.append_nil]
  | aborted passed rest faults f _ _ _ => rfl
  | absent _ _ ih => simpa [fixed] using ih
  | ran _ _ ih => simpa [fixed] using ih
  | leftOut f _ _ _ _ ih => simpa [fixed] using ih
  | noted f _ _ _ ih => simpa [fixed] using ih

/-- All four modules are there, and have been given the bus and a token that asks for a shutdown. -/
structure Ready (r : TokenId) (slots : List Slot) : Prop where
  modules : slots.map Slot.module = [0, 1, 2, 3]
  suits : Suits r slots

theorem Ready.congr {slots' : List Slot} (h : Ready r slots) (hfixed : slots'.map fixed = slots.map fixed) :
    Ready r slots' := by
  refine ⟨?_, fun s hs => ?_⟩
  · have hmodules := congrArg (List.map Prod.fst) hfixed
    rw [List.map_map, List.map_map] at hmodules
    exact hmodules.trans h.modules
  · obtain ⟨t, ht, heq⟩ := List.mem_map.1 (hfixed ▸ List.mem_map_of_mem (f := fixed) hs)
    have hkit : t.kit = s.kit := congrArg Prod.snd heq
    exact hkit ▸ h.suits t ht

/-- A phase whose failures are only noted ends no launch. -/
theorem goes_on_of_noted {ds : List Deed} {P : Progress} {p : Phase} (h : PhaseCourse cast p passed faults rest ds P)
    (hp : p.abortsLaunch = false) : P.aborted = none := by
  induction h with
  | done passed faults => rfl
  | aborted passed rest faults f _ habort _ => cases hp.symm.trans habort
  | absent _ _ ih => exact ih
  | ran _ _ ih => exact ih
  | leftOut f _ habort _ _ _ => cases hp.symm.trans habort
  | noted f _ _ _ ih => exact ih

/-- Phases one after another, until one aborts. -/
theorem runPhases_treads {p : Phase} {ps : List Phase} {mid post : Footing → Progress → Prop}
    (hrecord : ∀ record, footing.Bears (.record record))
    (hphase : Treads mid (Ensemble.runSlots cast name e p 0 [] faults slots) footing)
    (hstops : ∀ footing P, mid footing P → P.aborted.isSome = true → post footing P)
    (hnext : ∀ footing P, mid footing P → P.aborted = none →
      Treads post (Ensemble.runPhases cast name e P.slots P.faults ps) footing) :
    Treads post (Ensemble.runPhases cast name e slots faults (p :: ps)) footing := by
  refine treads_only_bind (Program.only_ask (hrecord _)) fun _ => treads_bind hphase fun footing P hmid => ?_
  split
  · next haborted => exact hstops footing P hmid haborted
  · next hgoes => exact hnext footing P hmid (Option.not_isSome_iff_eq_none.1 hgoes)

/-- A phase before the launch proper. -/
theorem runSlots_before_treads {p : Phase} (hp : p ≠ .launch) :
    Treads (fun footing P => footing = .gathered ∧ P.slots.map fixed = slots.map fixed)
      (Ensemble.runSlots cast name e p 0 [] faults slots) .gathered := by
  have hbears : (Ensemble.runSlots (A := app) cast name e p 0 [] faults slots).Only gathered.Bears :=
    Ensemble.runSlots_only (fun _ hop => bears_gathered (mild_of_callsHooks hp hop))
      (fun _ hop => bears_gathered (mild_of_publishes hop)) ..
  exact (treads_of_only hbears).with_run fun tr P hrun => fixed_of_phase (Ensemble.runSlots_course hrun)

/-- The phase after it. -/
theorem runSlots_after_treads (hfooting : footing = .gathered ∨ footing = .serving r) :
    Treads (fun footing' P => footing' = footing ∧ P.aborted = none)
      (Ensemble.runSlots cast name e .postLaunch 0 [] faults slots) footing := by
  have hp : Phase.postLaunch ≠ .launch := by decide
  have hbears : (Ensemble.runSlots (A := app) cast name e .postLaunch 0 [] faults slots).Only footing.Bears := by
    refine Ensemble.runSlots_only (fun op hop => ?_) (fun _ => bears_of_publishes hfooting) ..
    rcases hfooting with rfl | rfl
    · exact bears_gathered (mild_of_callsHooks hp hop)
    · refine bears_serving (mild_of_callsHooks hp hop) (fun token => ⟨?_, ?_⟩) fun m c limit heq => ?_
      · rintro rfl
        exact hop
      · rintro rfl
        exact hop
      · subst heq
        cases hop
  exact (treads_of_only hbears).with_run fun tr P hrun => goes_on_of_noted (Ensemble.runSlots_course hrun) rfl

/-- **A launch that succeeds leaves the worker started**, or nobody; one that fails leaves nobody started. -/
theorem launch_treads (hlaunched : e.launched = false) (hready : Ready r e.slots) :
    Treads (fun footing result => footing = .gathered ∨ footing = .serving r ∧ ∃ report, result.1 = .ok report)
      (e.launch cast name) .gathered := by
  have hkeep : ∀ name e, gathered.Bears (.keep name e) := fun name e => bears_gathered trivial
  have hrecord : ∀ record, gathered.Bears (.record record) := fun record => bears_gathered trivial
  have hassertion : Phase.assertion ≠ .launch := by decide
  rw [Ensemble.launch, hlaunched]
  refine treads_only_bind (Program.only_ask (hkeep ..)) fun _ => ?_
  have hassert : Treads (fun footing P => footing = .gathered ∧ P.slots.map fixed = e.slots.map fixed)
      (Ensemble.assertFrom cast name { e with launched := true } [] e.slots) .gathered :=
    (treads_of_only ((Ensemble.assertFrom_callsHooks ..).mono fun _ hop =>
      bears_gathered (mild_of_callsHooks hassertion hop))).with_run fun tr P hrun =>
        fixed_of_assertions (Ensemble.assertFrom_course hrun)
  refine treads_bind hassert fun footing asserted hmid => ?_
  obtain ⟨rfl, hfixed⟩ := hmid
  have hready := hready.congr hfixed
  dsimp only
  split
  · exact .inl rfl
  split
  · exact .inl rfl
  refine treads_only_bind ((Ensemble.prepareAll_prepares ..).mono fun _ hop =>
    bears_gathered (mild_of_prepares hop)) fun _ => ?_
  have hphases : Treads (fun footing P => footing = .gathered ∨ footing = .serving r ∧ P.aborted = none)
      (Ensemble.runPhases cast name { e with launched := true, slots := asserted.slots } asserted.slots []
        Phase.startup) .gathered := by
    refine runPhases_treads hrecord (runSlots_before_treads (by decide)) (fun _ _ h _ => .inl h.1) ?_
    rintro footing P ⟨rfl, hfixed⟩ -
    have hready := hready.congr hfixed
    refine runPhases_treads hrecord (runSlots_before_treads (by decide)) (fun _ _ h _ => .inl h.1) ?_
    rintro footing Q ⟨rfl, hfixed⟩ -
    have hready := hready.congr hfixed
    have hpaced : Paced r Q.slots .gathered := .inl ⟨rfl, hready.modules ▸ List.suffix_refl _⟩
    refine runPhases_treads hrecord (runSlots_launch_treads hready.suits hpaced) (fun _ _ h _ => h) ?_
    intro footing P hfooting _
    have hfooting : footing = .gathered ∨ footing = .serving r := hfooting.imp_right And.left
    refine runPhases_treads (fun _ => bears_of_publishes hfooting trivial) (runSlots_after_treads hfooting) ?_ ?_
    · rintro _ P ⟨-, hnone⟩ hsome
      rw [hnone] at hsome
      cases hsome
    · rintro _ P ⟨rfl, -⟩ -
      exact hfooting.imp_right fun heq => ⟨heq, rfl⟩
  refine treads_bind hphases fun footing P hfooting => ?_
  split
  · next failure hfailure =>
    rcases hfooting with rfl | ⟨-, hnone⟩
    · exact .inl rfl
    · cases hfailure.symm.trans hnone
  · refine treads_only_bind (Program.only_ask (bears_of_publishes (hfooting.imp_right And.left) trivial)) fun _ => ?_
    exact hfooting.imp_right fun h => ⟨h.1, _, rfl⟩

/-- A launch that must succeed. -/
theorem mustLaunch_treads (hlaunched : e.launched = false) (hready : Ready e.request e.slots) :
    Treads (fun footing result =>
      (footing = .gathered ∨ footing = .serving e.request ∧ ∃ report, result.1 = .ok report) ∧
        result.2.request = e.request) (e.mustLaunch cast name) .gathered := by
  have hlaunch : Treads _ (e.launch cast name) .gathered := launch_treads hlaunched hready
  have hkept := hlaunch.with_run (R := fun result => result.2.request = e.request) fun tr result hrun => by
    rw [(Ensemble.launch_course hrun).eq_with]
  rw [Ensemble.mustLaunch]
  refine treads_bind hkept fun footing result hresult => ?_
  obtain ⟨result, e₁⟩ := result
  obtain ⟨hfooting, hrequest⟩ := hresult
  cases result with
  | error failure =>
    obtain rfl := hfooting.resolve_right fun h => by cases h.2.choose_spec
    dsimp only
    split
    · exact treads_ask_bind (.inl (.inl trivial)) fun a => a.elim
    · exact ⟨.inl rfl, hrequest⟩
  | ok report => exact ⟨hfooting.imp_right fun h => ⟨h.1, report, rfl⟩, hrequest⟩

/-- **The wait for the end is over with a request or a signal**, and nothing but the end follows. -/
theorem awaitEnd_treads (hfooting : footing = .gathered ∨ footing = .serving r) :
    Treads (fun footing _ => footing = .gathered ∨ footing = .closing) (Ensemble.awaitEnd r) footing := by
  rcases hfooting with rfl | rfl
  · exact treads_of_loose ((Ensemble.awaitEnd_awaitsEnd r).mono fun _ hop => .inl (mild_of_awaitsEnd hop)) (.inl rfl)
  · refine treads_ask_bind ⟨trivial, fun token heq => ?_, fun c limit => nofun⟩ fun cause footing' hafter => ?_
    · rcases heq with heq | heq <;> cases heq
      rfl
    · cases cause with
      | unavailable error =>
        obtain rfl := Option.some.inj hafter
        refine treads_only_bind (Program.only_ask (bears_of_publishes (.inr rfl) trivial)) fun _ => ?_
        refine ⟨⟨trivial, fun token heq => ?_, fun c limit => nofun⟩, fun _ footing' hafter => ?_⟩
        · rcases heq with heq | heq <;> cases heq
          rfl
        · exact .inr (Option.some.inj hafter).symm
      | signal g => exact .inr (Option.some.inj hafter).symm
      | requested => exact .inr (Option.some.inj hafter).symm

theorem shutdown_loose : (e.shutdown (A := app) cast name).Only IsLoose :=
  Ensemble.shutdown_only (fun _ hop => .inl (mild_of_callsHooks (by decide) hop))
    (fun _ hop => .inl (mild_of_publishes hop)) (fun _ hop => loose_of_dismisses hop)

/-- **The modules are parted only after a launch that has failed, or when the wait for the end is over.** -/
theorem serve_treads (hlaunched : e.launched = false) (hready : Ready e.request e.slots) :
    Treads (fun footing _ => footing = .gathered ∨ footing = .closing) (e.serve cast name) .gathered := by
  rw [Ensemble.serve]
  refine treads_bind (mustLaunch_treads hlaunched hready) fun footing result hresult => ?_
  obtain ⟨result, e₁⟩ := result
  obtain ⟨hfooting, hrequest⟩ := hresult
  cases result with
  | error failure =>
    obtain rfl := hfooting.resolve_right fun h => by cases h.2.choose_spec
    refine treads_of_loose (Program.only_bind (Program.only_ask (.inl trivial)) fun _ => ?_) (.inl rfl)
    exact Program.only_bind shutdown_loose fun _ => Program.only_pure _
  | ok report =>
    dsimp only at hrequest ⊢
    rw [hrequest]
    refine treads_bind (awaitEnd_treads (hfooting.imp_right And.left)) fun footing cause hfooting => ?_
    refine treads_of_loose (Program.only_bind (Program.only_ask (.inl trivial)) fun _ => ?_) hfooting
    refine Program.only_bind ((Bus.publish_publishes ..).mono fun _ hop => .inl (mild_of_publishes hop)) fun _ => ?_
    exact Program.only_bind shutdown_loose fun _ => Program.only_pure _

end Main

/-- The parts have a starting order. -/
theorem parts_ordered : parts.ordered cast = .ok [0, 1, 2, 3] := by rfl

/-- Building puts all parts together. -/
theorem build_treads : Treads (fun footing result => footing = .gathered ∧
    ∃ e, result = .ok e ∧ e.launched = false ∧ Ready e.request e.slots) (parts.build cast bus) .building := by
  have hbuilds := (treads_of_builds Blueprint.build_builds).with_run fun tr result
    (hrun : (parts.build cast bus).Run tr result) => (⟨tr, hrun⟩ : ∃ tr, (parts.build cast bus).Run tr result)
  refine hbuilds.mono fun footing result hresult => ?_
  obtain ⟨hfooting, tr, hrun⟩ := hresult
  obtain ⟨⟨e, rfl⟩, -⟩ := Blueprint.build_changes parts_ordered hrun
  obtain ⟨modules, hordered, hmodules, hslots, -, -, huntouched⟩ := Blueprint.build_run hrun
  obtain ⟨hbus, -⟩ := Blueprint.build_asked hrun
  have hready : Ready e.request e.slots := by
    refine ⟨hmodules.trans (Except.ok.inj (hordered.symm.trans parts_ordered)), fun s hs => ?_⟩
    exact ⟨(hslots s hs).2.1.trans hbus, (hslots s hs).2.2⟩
  refine ⟨hfooting.resolve_right ?_, e, rfl, huntouched.launched, hready⟩
  rintro ⟨-, tr', hrun', hnone⟩
  obtain ⟨-, hchanges⟩ := Blueprint.build_changes parts_ordered hrun'
  refine hnone (hchanges ▸ ?_)
  decide

theorem tellFinal_mild (snapshots : List Snapshot) : (tellFinal snapshots).Only IsMild := by
  induction snapshots with
  | nil => exact Program.only_pure ()
  | cons s rest ih => exact Program.only_bind (say_mild ..) fun _ => ih

theorem snapshot_mild (slots : List Slot) : (Ensemble.snapshot (A := app) cast slots).Only IsMild := by
  induction slots with
  | nil => exact Program.only_pure []
  | cons s rest ih =>
    exact Program.only_bind (Program.only_ask trivial) fun _ => Program.only_bind ih fun _ => Program.only_pure _

theorem giveUp_mild (failure : LaunchFailure) : (giveUp failure).Only IsMild :=
  Program.only_bind (Program.only_ask trivial) fun _ => Program.only_pure _

/-- **The main program keeps its footing.** -/
theorem session_treads : Treads (fun _ _ => True) session .building := by
  rw [session]
  refine treads_bind build_treads fun footing result hresult => ?_
  obtain ⟨rfl, e, rfl, hlaunched, hready⟩ := hresult
  refine treads_only_bind (Program.only_ask (bears_gathered trivial)) fun _ => ?_
  refine treads_only_bind ((say_mild ..).mono fun _ => bears_gathered) fun _ => ?_
  refine treads_bind (serve_treads hlaunched hready) fun footing result hfooting => ?_
  obtain ⟨result, e₁⟩ := result
  refine (treads_of_loose ?_ hfooting).mono fun _ _ _ => trivial
  cases result with
  | error failure => exact (giveUp_mild failure).mono fun _ => .inl
  | ok report =>
    refine Program.only_bind ((snapshot_mild _).mono fun _ => .inl) fun snapshots => ?_
    refine Program.only_bind ((tellFinal_mild snapshots).mono fun _ => .inl) fun _ => ?_
    have hdone : (memorize (.conclude 0) >>= fun _ => pure (.ok ()) : Program app Outcome).Only IsLoose :=
      Program.only_bind (Program.only_ask (.inl trivial)) fun _ => Program.only_pure _
    dsimp only
    split
    · exact Program.only_bind ((say_mild ..).mono fun _ => .inl) fun _ => hdone
    · exact hdone

end Orchestra.Console
