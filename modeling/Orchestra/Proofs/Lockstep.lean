import Orchestra.Proofs.Tidings
import Orchestra.Proofs.Tracing

/-!
# Modules move in lockstep

At every moment of a launch, and after it, the active modules have come equally far, but for one stage by
which the first of them may be ahead.

* `Program.Upholds` — a condition that holds whenever a program asks for something, given what has been done
  so far; `Program.upholds_bind`, `Program.Upholds.leads`;
* `Ensemble.slotsAfter` — the slots as everybody can see them, after what has been done;
* `Ensemble.InLockstep` — what these slots satisfy;
* `Ensemble.Halfway` — some of the slots have been through a phase and the others have not, the invariant
  of the phase loop;
* `Ensemble.runSlots_upholds`, `Ensemble.launch_upholds` — it holds all through a phase, and a launch;
* `modules_in_lockstep` — all of it, for the ensembles that are built.
-/

namespace Orchestra

variable {A : Application} {cast : Cast}

/-! ### Conditions on the way through a program -/

/-- The deeds, with one that may have been added. -/
def noteDeed (ds : List Deed) : Option Deed → List Deed
  | none => ds
  | some d => ds ++ [d]

theorem noteDeed_append (ds : List Deed) (x : Exchange A) (tr : List (Exchange A)) :
    noteDeed ds x.deed? ++ deeds tr = ds ++ deeds (x :: tr) := by
  rw [deeds, deeds, List.filterMap_cons]
  cases x.deed? with
  | none => rfl
  | some d => rw [noteDeed, List.append_assoc, List.singleton_append]

namespace Program

variable {α β : Type} {I : List Deed → Op A → Prop} {mid post : List Deed → α → Prop}
  {ds : List Deed} {p q : Program A α} {tr : List (Exchange A)}

/-- Whatever the answers, a condition on what has been done so far holds whenever a program asks for
something, and another one when it has come to its end. -/
def Upholds (I : List Deed → Op A → Prop) (post : List Deed → α → Prop) :
    Program A α → List Deed → Prop
  | done a, ds => post ds a
  | perform op next, ds =>
    I ds op ∧ ∀ x, (next x).Upholds I post (noteDeed ds (Exchange.deed? ⟨op, x⟩))

theorem upholds_bind {post : List Deed → β → Prop} {f : α → Program A β} (hp : p.Upholds I mid ds)
    (hf : ∀ ds a, mid ds a → (f a).Upholds I post ds) : (p >>= f).Upholds I post ds := by
  show (p.bind f).Upholds I post ds
  induction p generalizing ds with
  | done a => exact hf ds a hp
  | perform op next ih => exact ⟨hp.1, fun x => ih x (hp.2 x)⟩

theorem upholds_ask_bind {op : Op A} {post : List Deed → β → Prop} {f : op.Answer → Program A β}
    (h : I ds op) (hf : ∀ x, (f x).Upholds I post (noteDeed ds (Exchange.deed? ⟨op, x⟩))) :
    (ask op >>= f).Upholds I post ds :=
  ⟨h, hf⟩

/-- A program that does nothing with the modules upholds what holds before it. -/
theorem upholds_of_only {P : Op A → Prop} (hp : p.Only P) (hquiet : ∀ op, P op → op.IsQuiet)
    (hI : ∀ op, P op → I ds op) (hpost : ∀ a, post ds a) : p.Upholds I post ds := by
  induction p with
  | done a => exact hpost a
  | perform op next ih =>
    refine ⟨hI op hp.1, fun x => ?_⟩
    rw [Exchange.deed?_of_isQuiet (x := ⟨op, x⟩) (hquiet op hp.1)]
    exact ih x (hp.2 x)

/-- What is left of a program upholds what the program does. -/
theorem Upholds.leads (h : p.Upholds I post ds) (hleads : p.Leads tr q) :
    q.Upholds I post (ds ++ deeds tr) := by
  induction hleads generalizing ds with
  | start p => rwa [deeds_nil, List.append_nil]
  | perform x _ ih =>
    rw [← noteDeed_append]
    exact ih (h.2 x)

theorem Upholds.run {a : α} (h : p.Upholds I post ds) (hrun : p.Run tr a) : post (ds ++ deeds tr) a := by
  induction hrun generalizing ds with
  | done a => rwa [deeds_nil, List.append_nil]
  | perform x _ ih =>
    rw [← noteDeed_append]
    exact ih (h.2 x)

end Program

/-- Publishing an event hands that event to listeners and no other. -/
theorem Bus.publish_hands (bus : BusId) (event : Event) (targets : Option TargetSet) :
    (publish (A := A) cast bus event targets).Only fun op => op.IsQuiet ∧
      ∀ l event' limit, op = .call (.onEvent l event') limit → event' = event := by
  have hdeliver : ∀ (set : List ListenerId) (d : Delivery),
      (deliverTo (A := A) cast bus event set d).Only fun op => op.IsQuiet ∧
        ∀ l event' limit, op = .call (.onEvent l event') limit → event' = event := by
    intro set
    induction set with
    | nil => exact fun d => Program.only_pure d
    | cons l rest ih =>
      intro d
      refine Program.only_bind (Program.only_ask ⟨trivial, ?_⟩) fun o => ?_
      · intro l' event' limit heq
        cases heq
        rfl
      · rcases o with f | ⟨⟩
        · exact Program.only_bind (Program.only_ask ⟨trivial, nofun⟩) fun _ => ih _
        · exact ih _
  refine Program.only_bind (Program.only_ask ⟨trivial, nofun⟩) fun held => ?_
  cases held with
  | some set => exact hdeliver ..
  | none =>
    refine Program.only_bind (Program.only_ask ⟨trivial, nofun⟩) fun set => ?_
    refine Program.only_bind (hdeliver ..) fun d => ?_
    refine Program.only_bind (Program.only_ask ⟨trivial, nofun⟩) fun _ => ?_
    refine Program.only_bind ?_ fun _ => Program.only_pure d
    unfold noteUnmatched
    split
    · split
      · exact Program.only_ask ⟨trivial, nofun⟩
      · exact Program.only_pure ()
    · exact Program.only_pure ()

namespace Ensemble

variable {name : String} {e e₀ : Ensemble} {ds : List Deed} {p : Phase} {a b : Stage}
  {passed rest slots : List Slot} {s t : Slot}

/-! ### What everybody can see -/

/-- The slots as they were stored last. -/
def slotsAfter (e : Ensemble) (ds : List Deed) : List Slot := (storedIn ds).getLastD e.slots

theorem slotsAfter_called (c : Callee) (o : Outcome) :
    e.slotsAfter (ds ++ [.called c o]) = e.slotsAfter ds := by
  rw [slotsAfter, storedIn_append]
  exact congrArg (List.getLastD · e.slots) (List.append_nil _)

theorem slotsAfter_stored (slots : List Slot) : e.slotsAfter (ds ++ [.stored slots]) = slots := by
  rw [slotsAfter, storedIn_append]
  exact List.getLastD_concat

/-- The modules of an ensemble move in lockstep: those that are active have reached one of two stages next
to each other, the further one before the other in starting order, and the others have been left out for
failing `init` or `launch`, for which no mandatory module is. -/
structure InLockstep (e : Ensemble) (ds : List Deed) : Prop where
  modules : (e.slotsAfter ds).map Slot.module = e.modules
  ordered : ((e.slotsAfter ds).filter Slot.active).Pairwise fun s t => t.stage ≤ s.stage
  close : ∃ a b : Stage, b.rank = a.rank + 1 ∧
    ∀ s ∈ e.slotsAfter ds, s.active = true → s.stage = a ∨ s.stage = b
  mandatory : ∀ s ∈ e.slotsAfter ds, s.info.mandatory = true → s.active = true
  leftOut : ∀ s ∈ e.slotsAfter ds, s.active = false →
    (s.stage = .asserted ∧ ∃ f, (s.hook .init, .error f) ∈ callsOf ds) ∨
      (s.stage = .preLaunched ∧ ∃ f, (s.hook .launch, .error f) ∈ callsOf ds)

/-- Whoever is called now sees the modules in lockstep, and if he is told that a phase is completed, then the
active modules have just been through it. -/
def Sees (e : Ensemble) (ds : List Deed) (op : Op A) : Prop :=
  e.InLockstep ds ∧ ∀ l p n limit, op = .call (.onEvent l (.phaseCompleted p n)) limit →
    ∀ s ∈ e.slotsAfter ds, s.active = true → s.stage = .after p

theorem InLockstep.sees (h : e.InLockstep ds) {op : Op A} (hop : op.IsSilent) : e.Sees ds op := by
  refine ⟨h, fun l p n limit heq => ?_⟩
  subst heq
  cases hop

/-- An event that does not tell of a completed phase can be published at any time. -/
theorem InLockstep.upholds_publish (h : e.InLockstep ds) (bus : BusId) {event : Event}
    (hevent : ∀ p n, event ≠ .phaseCompleted p n) (targets : Option TargetSet)
    {post : List Deed → Delivery → Prop} (hpost : ∀ d, post ds d) :
    (Bus.publish (A := A) cast bus event targets).Upholds e.Sees post ds := by
  refine Program.upholds_of_only (Bus.publish_hands ..) (fun _ hop => hop.1) (fun op hop => ?_) hpost
  exact ⟨h, fun l p n limit heq => absurd (hop.2 l _ limit heq).symm (hevent p n)⟩

/-! ### In the middle of a phase -/

/-- A slot whose module is left out only if it may be, and for a reason. -/
structure Stands (calls : List (Callee × Outcome)) (s : Slot) : Prop where
  mandatory : s.info.mandatory = true → s.active = true
  leftOut : s.active = false → (s.stage = .asserted ∧ ∃ f, (s.hook .init, .error f) ∈ calls) ∨
    (s.stage = .preLaunched ∧ ∃ f, (s.hook .launch, .error f) ∈ calls)

theorem Stands.append {calls calls' : List (Callee × Outcome)} (h : Stands calls s) :
    Stands (calls ++ calls') s := by
  refine ⟨h.mandatory, fun hactive => ?_⟩
  rcases h.leftOut hactive with ⟨hstage, f, hf⟩ | ⟨hstage, f, hf⟩
  · exact .inl ⟨hstage, f, List.mem_append_left _ hf⟩
  · exact .inr ⟨hstage, f, List.mem_append_left _ hf⟩

theorem stands_of_active {calls : List (Callee × Outcome)} (h : s.active = true) : Stands calls s :=
  ⟨fun _ => h, fun hactive => by rw [h] at hactive; cases hactive⟩

/-- Of the slots, those in `passed` are at stage `b` if they are active, and those in `rest` at stage `a`. -/
structure Halfway (e : Ensemble) (a b : Stage) (ds : List Deed) (passed rest : List Slot) : Prop where
  current : e.slotsAfter ds = passed ++ rest
  modules : (passed ++ rest).map Slot.module = e.modules
  reached : ∀ s ∈ passed, s.active = true → s.stage = b
  awaiting : ∀ s ∈ rest, s.active = true → s.stage = a
  stands : ∀ s ∈ passed ++ rest, Stands (callsOf ds) s

/-- **In the middle of a phase the modules are in lockstep.** -/
theorem Halfway.inLockstep (h : e.Halfway a b ds passed rest) (hab : b.rank = a.rank + 1) :
    e.InLockstep ds := by
  have hstage : ∀ s ∈ passed ++ rest, s.active = true → s.stage = a ∨ s.stage = b := by
    intro s hs hactive
    rcases List.mem_append.1 hs with hs | hs
    · exact .inr (h.reached s hs hactive)
    · exact .inl (h.awaiting s hs hactive)
  refine ⟨?_, ?_, ⟨a, b, hab, ?_⟩, ?_, ?_⟩ <;> rw [h.current]
  · exact h.modules
  · rw [List.filter_append, List.pairwise_append]
    have hsame : ∀ {slots : List Slot} {c : Stage}, (∀ s ∈ slots, s.active = true → s.stage = c) →
        (slots.filter Slot.active).Pairwise fun s t => t.stage ≤ s.stage := by
      intro slots c hall
      refine List.pairwise_of_forall_mem_list fun s hs t ht => ?_
      obtain ⟨hs, hsactive⟩ := List.mem_filter.1 hs
      obtain ⟨ht, htactive⟩ := List.mem_filter.1 ht
      rw [hall s hs hsactive, hall t ht htactive]
      exact Nat.le_refl _
    refine ⟨hsame h.reached, hsame h.awaiting, fun s hs t ht => ?_⟩
    obtain ⟨hs, hsactive⟩ := List.mem_filter.1 hs
    obtain ⟨ht, htactive⟩ := List.mem_filter.1 ht
    rw [h.reached s hs hsactive, h.awaiting t ht htactive, Stage.le_def]
    omega
  · exact hstage
  · exact fun s hs => (h.stands s hs).mandatory
  · exact fun s hs => (h.stands s hs).leftOut

theorem Halfway.sees (h : e.Halfway a b ds passed rest) (hab : b.rank = a.rank + 1) {op : Op A}
    (hop : op.IsSilent) : e.Sees ds op :=
  (h.inLockstep hab).sees hop

/-- A slot that is not active is passed over. -/
theorem Halfway.absent (h : e.Halfway a b ds passed (s :: rest)) (hs : s.active = false) :
    e.Halfway a b ds (passed ++ [s]) rest := by
  have hsame : passed ++ [s] ++ rest = passed ++ s :: rest := by simp
  refine ⟨hsame ▸ h.current, hsame ▸ h.modules, ?_, ?_, hsame ▸ h.stands⟩
  · intro t ht hactive
    rcases List.mem_append.1 ht with ht | ht
    · exact h.reached t ht hactive
    · rw [List.mem_singleton.1 ht, hs] at hactive
      cases hactive
  · exact fun t ht => h.awaiting t (List.mem_cons_of_mem s ht)

/-- A call that has been made. -/
theorem Halfway.called (h : e.Halfway a b ds passed rest) (c : Callee) (o : Outcome) :
    e.Halfway a b (ds ++ [.called c o]) passed rest := by
  refine ⟨by rw [slotsAfter_called, h.current], h.modules, h.reached, h.awaiting, fun s hs => ?_⟩
  rw [callsOf_append]
  exact (h.stands s hs).append

/-- The next slot has been through the phase, or has been left out, and is stored so. -/
theorem Halfway.stored (h : e.Halfway a b ds passed (s :: rest)) (hmodule : t.module = s.module)
    (ht : t.active = true → t.stage = b) (hstands : Stands (callsOf ds) t) :
    e.Halfway a b (ds ++ [.stored (passed ++ t :: rest)]) (passed ++ [t]) rest := by
  have hsame : passed ++ [t] ++ rest = passed ++ t :: rest := by simp
  have hcalls : callsOf (ds ++ [.stored (passed ++ t :: rest)]) = callsOf ds := by
    rw [callsOf_append]
    exact List.append_nil _
  refine ⟨by rw [slotsAfter_stored, hsame], ?_, ?_, fun u hu => h.awaiting u (List.mem_cons_of_mem s hu), ?_⟩
  · rw [← h.modules, hsame, List.map_append, List.map_append, List.map_cons, List.map_cons, hmodule]
  · intro u hu hactive
    rcases List.mem_append.1 hu with hu | hu
    · exact h.reached u hu hactive
    · rw [List.mem_singleton.1 hu] at hactive ⊢
      exact ht hactive
  · rw [hcalls]
    exact forall_mem_replace hstands h.stands

/-- One phase is over and another one begins. -/
theorem Halfway.turn (h : e.Halfway a b ds slots []) (c : Stage) : e.Halfway b c ds [] slots := by
  have hcurrent := h.current
  have hmodules := h.modules
  have hstands := h.stands
  rw [List.append_nil] at hcurrent hmodules hstands
  exact ⟨hcurrent, hmodules, nofun, h.reached, hstands⟩

/-! ### One phase -/

/-- What is so once a phase, or several, have come to an end: if they have not been aborted, all active modules
have reached stage `b`. -/
structure Arrives (e : Ensemble) (b : Stage) (ds : List Deed) (P : Progress) : Prop where
  inLockstep : e.InLockstep ds
  current : e.slotsAfter ds = P.slots
  modules : P.slots.map Slot.module = e.modules
  stands : ∀ s ∈ P.slots, Stands (callsOf ds) s
  reached : P.aborted = none → ∀ s ∈ P.slots, s.active = true → s.stage = b

theorem Arrives.halfway {P : Progress} (h : e.Arrives b ds P) (hP : P.aborted = none) (c : Stage) :
    e.Halfway b c ds [] P.slots :=
  ⟨h.current, h.modules, nofun, h.reached hP, h.stands⟩

theorem Halfway.arrives (h : e.Halfway a b ds slots []) (hab : b.rank = a.rank + 1)
    (faults : List Fault) : e.Arrives b ds ⟨slots, faults, none⟩ := by
  have hcurrent := h.current
  have hmodules := h.modules
  have hstands := h.stands
  rw [List.append_nil] at hcurrent hmodules hstands
  exact ⟨h.inLockstep hab, hcurrent, hmodules, hstands, fun _ => h.reached⟩

/-- A phase that has not begun yet. -/
theorem Halfway.begins (h : e.Halfway a b ds [] slots) (hab : b.rank = a.rank + 1) (faults : List Fault) :
    e.Arrives a ds ⟨slots, faults, none⟩ :=
  ⟨h.inLockstep hab, h.current, h.modules, h.stands, fun _ => h.awaiting⟩

theorem Halfway.aborts (h : e.Halfway a b ds passed rest) (hab : b.rank = a.rank + 1) {c : Stage}
    {failure : LaunchFailure} {faults : List Fault} :
    e.Arrives c ds ⟨passed ++ rest, faults, some failure⟩ :=
  ⟨h.inLockstep hab, h.current, h.modules, h.stands, nofun⟩

/-- Only in the phases `init` and `launch` are modules left out. -/
theorem stands_leftOut {calls : List (Callee × Outcome)} {f : HookFailure}
    (hp : (Stage.after p).rank = a.rank + 1) (hphase : p.abortsLaunch = true)
    (hmandatory : s.info.mandatory = false) (hstage : s.stage = a)
    (hcall : (s.hook p, .error f) ∈ calls) : Stands calls s.leftOut := by
  refine ⟨fun h => ?_, fun _ => ?_⟩
  · have hs : s.info.mandatory = true := h
    rw [hmandatory] at hs
    cases hs
  · have hrank : ∀ c : Stage, p.rank = c.rank → s.leftOut.stage = c := by
      intro c hc
      rw [Stage.rank_after] at hp
      exact Stage.rank_inj (by rw [show s.leftOut.stage = a from hstage]; omega)
    cases p with
    | init => exact .inl ⟨hrank .asserted rfl, f, hcall⟩
    | launch => exact .inr ⟨hrank .preLaunched rfl, f, hcall⟩
    | assertion | preLaunch | postLaunch | shutdown => cases hphase

/-- **All through a phase the modules are in lockstep**, and it is completed once the active modules have all
been through it. -/
theorem runSlots_upholds (hp : (Stage.after p).rank = a.rank + 1) {ran : Nat} {faults : List Fault}
    (h : e₀.Halfway a (.after p) ds passed rest) :
    (runSlots (A := A) cast name e p ran passed faults rest).Upholds e₀.Sees
      (fun ds P => e₀.Arrives (.after p) ds P) ds := by
  -- What is told of a fault is no matter for the slots.
  have hfault : ∀ {ds' : List Deed} {passed' rest' : List Slot} (m : String) (f : HookFailure)
      (escalated : Bool), e₀.Halfway a (.after p) ds' passed' rest' →
      (announceFault (A := A) cast e.bus m p f escalated).Upholds e₀.Sees
        (fun ds' _ => e₀.Halfway a (.after p) ds' passed' rest') ds' := by
    intro ds' passed' rest' m f escalated h'
    have hevent : ∀ q n, Event.moduleFaulted m p f.message escalated ≠ .phaseCompleted q n := by rintro _ _ ⟨⟩
    exact Program.upholds_bind ((h'.inLockstep hp).upholds_publish _ hevent _ fun _ => h')
      fun _ _ hds => hds
  induction rest generalizing ran passed faults ds with
  | nil =>
    have hreached : ∀ s ∈ e₀.slotsAfter ds, s.active = true → s.stage = .after p := by
      rw [h.current, List.append_nil]
      exact h.reached
    have htold : (Bus.emit (A := A) cast e.bus (.phaseCompleted p ran)).Upholds e₀.Sees
        (fun ds' _ => e₀.Halfway a (.after p) ds' passed []) ds := by
      refine Program.upholds_of_only (Bus.publish_hands ..) (fun _ hop => hop.1) (fun op hop => ?_)
        fun _ => h
      refine ⟨h.inLockstep hp, fun l q n limit heq => ?_⟩
      cases hop.2 l _ limit heq
      exact hreached
    rw [runSlots]
    refine Program.upholds_ask_bind (h.sees hp trivial) fun _ => ?_
    exact Program.upholds_bind htold fun _ _ hend => hend.arrives hp faults
  | cons s rest ih =>
    rw [runSlots]
    by_cases hactive : s.active = true
    case neg =>
      rw [if_pos (by simpa using hactive)]
      exact ih (h.absent (by simpa using hactive))
    rw [if_neg (by simpa using hactive)]
    have hstage : s.stage = a := h.awaiting s List.mem_cons_self hactive
    have hreached : ∀ {ds' : List Deed}, e₀.Halfway a (.after p) ds' passed (s :: rest) →
        e₀.Halfway a (.after p) (ds' ++ [.stored (passed ++ s.reached p :: rest)])
          (passed ++ [s.reached p]) rest :=
      fun h' => h'.stored rfl (fun _ => rfl) (stands_of_active hactive)
    refine Program.upholds_ask_bind (h.sees hp trivial) fun o => ?_
    have hcalled : e₀.Halfway a (.after p) (ds ++ [.called (s.hook p) o]) passed (s :: rest) := h.called _ o
    rcases o with f | ⟨⟩
    case ok => exact Program.upholds_ask_bind (hcalled.sees hp trivial) fun _ => ih (hreached hcalled)
    by_cases hphase : p.abortsLaunch = true
    · by_cases hmandatory : s.info.mandatory = true
      · simp only [hphase, hmandatory, Bool.and_self, if_true]
        refine Program.upholds_ask_bind (hcalled.sees hp trivial) fun _ => ?_
        exact Program.upholds_bind (hfault _ _ _ hcalled) fun _ _ hend => hend.aborts hp
      · have hoptional : s.info.mandatory = false := by simpa using hmandatory
        simp only [hphase, hoptional, Bool.and_false, if_true, Bool.false_eq_true, if_false]
        have hleft := hcalled.stored (t := s.leftOut) rfl (by rintro ⟨⟩)
          (stands_leftOut hp hphase hoptional hstage (f := f) (by simp))
        refine Program.upholds_ask_bind (hcalled.sees hp trivial) fun _ => ?_
        refine Program.upholds_ask_bind (hleft.sees hp trivial) fun _ => ?_
        exact Program.upholds_bind (hfault _ _ _ hleft) fun _ _ hrest => ih hrest
    · simp only [hphase, Bool.false_and, Bool.false_eq_true, if_false]
      have hnext := hreached hcalled
      refine Program.upholds_ask_bind (hcalled.sees hp trivial) fun _ => ?_
      refine Program.upholds_ask_bind (hnext.sees hp trivial) fun _ => ?_
      exact Program.upholds_bind (hfault _ _ _ hnext) fun _ _ hrest => ih hrest

/-! ### A launch -/

/-- Phases each of which leads one stage further. -/
def InTurn : Stage → List Phase → Prop
  | _, [] => True
  | a, p :: ps => (Stage.after p).rank = a.rank + 1 ∧ InTurn (.after p) ps

/-- The stage that phases lead to. -/
def stageAfter (a : Stage) (ps : List Phase) : Stage := ps.foldl (fun _ p => .after p) a

/-- **All through its phases the modules are in lockstep.** -/
theorem runPhases_upholds {ps : List Phase} (hps : InTurn a ps) {faults : List Fault}
    (h : e₀.Arrives a ds ⟨slots, faults, none⟩) :
    (runPhases (A := A) cast name e slots faults ps).Upholds e₀.Sees
      (fun ds P => e₀.Arrives (stageAfter a ps) ds P) ds := by
  induction ps generalizing a slots faults ds with
  | nil => exact h
  | cons p rest ih =>
    rw [runPhases]
    refine Program.upholds_ask_bind (h.inLockstep.sees trivial) fun _ => ?_
    refine Program.upholds_bind (runSlots_upholds hps.1 (h.halfway rfl _)) fun ds' P hP => ?_
    by_cases haborted : P.aborted.isSome = true
    · rw [if_pos haborted]
      refine ⟨hP.inLockstep, hP.current, hP.modules, hP.stands, fun hnone => ?_⟩
      rw [hnone] at haborted
      cases haborted
    · rw [if_neg haborted]
      have hnone : P.aborted = none := by simpa using haborted
      exact ih hps.2 ⟨hP.inLockstep, hP.current, hP.modules, hP.stands, fun _ => hP.reached hnone⟩

theorem assertFrom_upholds (h : e₀.Halfway .unstarted .asserted ds passed rest)
    (hactive : ∀ s ∈ rest, s.active = true) :
    (assertFrom (A := A) cast name e passed rest).Upholds e₀.Sees
      (fun ds P => e₀.Arrives .asserted ds P) ds := by
  induction rest generalizing passed ds with
  | nil => exact h.arrives rfl []
  | cons s rest ih =>
    obtain ⟨hs, hrest⟩ := List.forall_mem_cons.1 hactive
    rw [assertFrom]
    refine Program.upholds_ask_bind (h.sees rfl trivial) fun o => ?_
    have hcalled : e₀.Halfway .unstarted .asserted (ds ++ [.called (s.hook .assertion) o]) passed
        (s :: rest) := h.called _ o
    rcases o with f | ⟨⟩
    · exact hcalled.aborts rfl
    · refine Program.upholds_ask_bind (hcalled.sees rfl trivial) fun _ => ?_
      exact ih (hcalled.stored (t := s.reached .assertion) rfl (fun _ => rfl) (stands_of_active hs)) hrest

theorem prepareAll_upholds (h : e₀.Halfway a b ds passed rest) (hab : b.rank = a.rank + 1)
    (limit : Option Duration) (ls : List ListenerId) :
    (prepareAll (A := A) cast limit ls).Upholds e₀.Sees (fun ds _ => e₀.Halfway a b ds passed rest) ds := by
  induction ls generalizing ds with
  | nil => exact h
  | cons l rest ih =>
    rw [prepareAll]
    refine Program.upholds_ask_bind (h.sees hab trivial) fun o => ?_
    have hcalled := h.called (.prepare l) o
    rcases o with f | ⟨⟩
    · exact Program.upholds_ask_bind (hcalled.sees hab trivial) fun _ => ih hcalled
    · exact ih hcalled

/-- What a launch comes to: the modules are in lockstep, and if it has succeeded, then those that are active
have been through all phases. -/
structure Lands (e : Ensemble) (ds : List Deed)
    (r : Except LaunchFailure LaunchSummary × Ensemble) : Prop where
  inLockstep : e.InLockstep ds
  current : r.2.slots = e.slotsAfter ds
  stands : ∀ s ∈ r.2.slots, Stands (callsOf ds) s
  reached : ∀ report, r.1 = .ok report → ∀ s ∈ r.2.slots, s.active = true → s.stage = .postLaunched

/-- **All through the first launch the modules are in lockstep.** -/
theorem launch_upholds (h : e.Untouched) :
    (e.launch (A := A) cast name).Upholds e.Sees (fun ds r => e.Lands ds r) [] := by
  have hstart : ∀ {ds : List Deed}, e.slotsAfter ds = e.slots → e.Halfway .unstarted .asserted ds [] e.slots :=
    fun hds => ⟨hds, rfl, by rintro _ ⟨⟩, fun s hs _ => (h.slots s hs).1,
      fun s hs => stands_of_active (h.slots s hs).2⟩
  rw [launch, if_neg (by simp [h.launched])]
  refine Program.upholds_ask_bind ((hstart rfl).sees rfl trivial) fun _ => ?_
  refine Program.upholds_bind (assertFrom_upholds (hstart rfl) fun s hs => (h.slots s hs).2) fun ds P hP => ?_
  dsimp only
  have hfailed : ∀ {r : Except LaunchFailure LaunchSummary × Ensemble} {f : LaunchFailure},
      r.1 = .error f → r.2.slots = P.slots → e.Lands ds r := by
    intro r f hr hslots
    refine ⟨hP.inLockstep, by rw [hslots, hP.current], by rw [hslots]; exact hP.stands, ?_⟩
    intro report hreport
    rw [hr] at hreport
    cases hreport
  cases haborted : P.aborted with
  | some failure => exact hfailed rfl rfl
  | none =>
    dsimp only
    cases hmissing : ({ e with launched := true, slots := P.slots } : Ensemble).missingKind? with
    | some kind => exact hfailed rfl rfl
    | none =>
      have hready := hP.halfway haborted .initialized
      refine Program.upholds_bind (prepareAll_upholds hready rfl _ _) fun ds _ hds => ?_
      have hturns : InTurn .asserted Phase.startup := ⟨rfl, rfl, rfl, rfl, trivial⟩
      refine Program.upholds_bind (runPhases_upholds hturns (hds.begins rfl [])) fun ds Q hQ => ?_
      cases hend : Q.aborted with
      | some failure => exact ⟨hQ.inLockstep, hQ.current.symm, hQ.stands, by rintro _ ⟨⟩⟩
      | none =>
        refine Program.upholds_ask_bind (hQ.inLockstep.sees trivial) fun _ => ?_
        exact ⟨hQ.inLockstep, hQ.current.symm, hQ.stands, fun _ _ => hQ.reached hend⟩

end Ensemble

/-! ### The first launch, and later ones -/

section

variable {name : String} {e₀ e e₁ e' : Ensemble} {T : List (Request × List (Exchange A))}

/-- Further launches leave an ensemble as it is. -/
theorem Story.of_launched (h : Story cast name e₁ T e') (hlaunched : e₁.launched = true)
    (hlaunches : ∀ x ∈ T, x.1 = .launch) : e' = e₁ := by
  induction h with
  | start => rfl
  | @next T e e' request tr _ hdone ih =>
    have hrequest : request = .launch := hlaunches (request, tr) (by simp)
    subst hrequest
    obtain rfl := ih fun x hx => hlaunches x (List.mem_append_left _ hx)
    obtain ⟨result, hrun⟩ := hdone
    exact (Prod.mk.inj ((Ensemble.launch_course hrun).of_launched hlaunched).2).2

/-- A program that is about to publish an event to everybody may be about to hand it to any listener, and
nothing is done with the modules until then. -/
theorem Program.Leads.hands {α : Type} {p : Program A α} {tr : List (Exchange A)} {bus : BusId}
    {event : Event} {next : Delivery → Program A α}
    (h : p.Leads tr (Bus.emit cast bus event >>= next)) (l : ListenerId) :
    ∃ tr', deeds tr' = deeds tr ∧
      p.Asks tr' (.call (.onEvent l event) (cast.listenerLimit bus)) := by
  obtain ⟨next', rest, hasks, hdelivers⟩ : ∃ next' rest,
      (Bus.emit cast bus event >>= next) = .perform (.enclosing bus) next' ∧
        next' (some [l]) = .perform (.call (.onEvent l event) (cast.listenerLimit bus)) rest := ⟨_, _, rfl, rfl⟩
  rw [hasks] at h
  have hcalls := h.snoc (some [l])
  rw [hdelivers] at hcalls
  refine ⟨_, ?_, rest, hcalls⟩
  rw [deeds_append]
  exact List.append_nil _

/-- **Modules move in lockstep.**  Let an ensemble that was built be launched for the first time.

* Whenever the launch waits for something, so whenever a hook or a listener is called, the modules are in
  lockstep; this is so too if the launch is given up there.
* Whenever it is about to tell that a phase is completed, the active modules have just been through it.
* When it has returned, in whatever way, the modules are in lockstep, and if it has succeeded, then the active
  modules are those that have been through all phases.
* Further launches leave everything as it is. -/
theorem modules_in_lockstep (hbuilt : Built A cast e₀) (hstory : Story cast name e₀ T e)
    (hfirst : e.launched = false) :
    (∀ tr p, (e.launch (A := A) cast name).Leads tr p → e.InLockstep (deeds tr)) ∧
    (∀ tr p n next, (e.launch (A := A) cast name).Leads tr
        (Bus.emit cast e.bus (.phaseCompleted p n) >>= next) →
      ∀ s ∈ e.slotsAfter (deeds tr), s.active = true → s.stage = .after p) ∧
    (∀ tr r, Program.Run (e.launch (A := A) cast name) tr r → e.InLockstep (deeds tr) ∧
      r.2 = { e with launched := true, slots := e.slotsAfter (deeds tr) } ∧
      ∀ report, r.1 = .ok report → ∀ s ∈ r.2.slots, s.active = true ↔ s.stage = .postLaunched) ∧
    ∀ e₁ T' e', Story (A := A) cast name e₁ T' e' → e₁.launched = true →
      (∀ x ∈ T', x.1 = .launch) → e' = e₁ := by
  obtain ⟨rfl, -⟩ := Story.of_unlaunched hbuilt.untouched hstory hfirst
  have hupholds : (e.launch (A := A) cast name).Upholds e.Sees (fun ds r => e.Lands ds r) [] :=
    Ensemble.launch_upholds hbuilt.untouched
  refine ⟨fun tr p hleads => ?_, fun tr p n next hleads => ?_, fun tr r hrun => ?_,
    fun e₁ T' e' hlater hlaunched hlaunches => hlater.of_launched hlaunched hlaunches⟩
  · have hleft := hupholds.leads hleads
    cases p with
    | done r => exact hleft.inLockstep
    | perform op next => exact hleft.1.1
  · obtain ⟨tr', hdeeds, rest, hasks⟩ := hleads.hands 0
    have hsees := (hupholds.leads hasks).1.2 0 p n _ rfl
    rwa [List.nil_append, hdeeds] at hsees
  · have hlands : e.Lands (deeds tr) r := hupholds.run hrun
    have hsame := (Ensemble.launch_course hrun).eq_with
    rw [hlands.current] at hsame
    refine ⟨hlands.inLockstep, hsame, fun report hok s hs => ⟨hlands.reached report hok s hs, ?_⟩⟩
    intro hstage
    by_contra hactive
    rcases (hlands.stands s hs).leftOut (by simpa using hactive) with ⟨hleft, -⟩ | ⟨hleft, -⟩
    · cases hstage.symm.trans hleft
    · cases hstage.symm.trans hleft

/-- Of four modules, one fails `init` and is left out, and one fails `postLaunch` and is not. -/
theorem modules_in_lockstep_sample :
    ∃ tr r, (Ensemble.sample.launch (A := .bare) Cast.sample "sample").play (.attended Outcomes.sample) []
        = (tr, some r) ∧ Ensemble.sample.InLockstep (deeds tr) ∧
      r.2.slots.map Slot.stage = [.postLaunched, .postLaunched, .asserted, .postLaunched] ∧
      ∀ s ∈ r.2.slots, s.active = true ↔ s.stage = .postLaunched := by
  have hstory : Story (A := .bare) Cast.sample "sample" Ensemble.sample [] Ensemble.sample := .start
  obtain ⟨-, -, hreturned, -⟩ := modules_in_lockstep built_sample hstory rfl
  have hasked : (Ensemble.sample.launch (A := .bare) Cast.sample "sample").Only
      fun op => Nonempty op.Answer := Ensemble.only_launch
  obtain ⟨tr, r, hplay, hrun, -⟩ :=
    Program.exists_play (Answerer.isObliging_attended Outcomes.sample) hasked []
  obtain ⟨hlockstep, -, hactive⟩ := hreturned tr r hrun
  have hstages : some [.postLaunched, .postLaunched, .asserted, .postLaunched] =
      some (r.2.slots.map Slot.stage) := by
    have hplayed := congrArg (fun x => x.2.map fun r => r.2.slots.map Slot.stage) hplay
    exact Eq.trans rfl hplayed
  have hresult : ∃ report, r.1 = .ok report := by
    have hplayed := congrArg (fun x => x.2.map Prod.fst) hplay
    exact ⟨_, (Option.some.inj (Eq.trans (show some (Except.ok _) = _ from rfl) hplayed)).symm⟩
  obtain ⟨report, hok⟩ := hresult
  exact ⟨tr, r, hplay, hlockstep, (Option.some.inj hstages).symm, hactive report hok⟩

end

end Orchestra
