import Orchestra.Proofs.Assembly
import Orchestra.Proofs.Serving

/-!
# The parts of a shutdown

A shutdown has three parts.  It runs the hooks that are due and tells the bus; it tells the workers to stop
and waits for them; and only then does it take modules and listeners off the bus, and nobody else.

* `Ensemble.Evolves` — one ensemble at two times: its modules have their kits, and it has its bus, its
  listeners and its tokens; `Story.evolves` — so it is whatever has been asked of it;
* `Story.isOngoing` — hooks are due only after a launch, and not after a shutdown that has come since;
* `Ensemble.runClosing`, `Ensemble.windUp` — a shutdown until the bus has been told, and until the workers
  have been waited for; `Ensemble.shutdown_eq_windUp` — what is left then;
* `Ensemble.windUp_spares`, `Ensemble.shutdown_withdraws` — whom the parts take off a bus;
* `Execution.IsStepOf` — a step that a task takes by itself on its way through a program;
* `Execution.listeners_of_removals` — who is left where some have been removed, and nothing else has been done.
-/

namespace Orchestra

variable {A : Application} {cast : Cast} {name : String} {e e' e'' : Ensemble}

/-! ### One ensemble at two times -/

/-- The modules and the listeners of an ensemble. -/
def Ensemble.members (e : Ensemble) : List ListenerId := e.modules ++ e.listeners

/-- One ensemble at two times: only how far it has come may have changed. -/
structure Ensemble.Evolves (e e' : Ensemble) : Prop where
  owners : e'.slots.map Slot.owner = e.slots.map Slot.owner
  rest : e' = { e with slots := e'.slots, launched := e'.launched }

namespace Ensemble.Evolves

theorem refl (e : Ensemble) : e.Evolves e := ⟨rfl, rfl⟩

theorem trans (h : e.Evolves e') (h' : e'.Evolves e'') : e.Evolves e'' := by
  refine ⟨h'.owners.trans h.owners, ?_⟩
  rw [h'.rest, h.rest]

theorem bus (h : e.Evolves e') : e'.bus = e.bus := by rw [h.rest]

theorem runtime (h : e.Evolves e') : e'.runtime = e.runtime := by rw [h.rest]

theorem listeners (h : e.Evolves e') : e'.listeners = e.listeners := by rw [h.rest]

theorem members (h : e.Evolves e') : e'.members = e.members := by
  have hmodules : e'.modules = e.modules := map_module_of_owner h.owners
  rw [Ensemble.members, Ensemble.members, hmodules, h.listeners]

end Ensemble.Evolves

theorem Slot.owner_stopped (s : Slot) : s.stopped.owner = s.owner := by
  unfold stopped
  split <;> rfl

namespace Ensemble

/-- The hooks of a shutdown change nothing of an ensemble but the stages of its slots. -/
theorem evolves_closed {tr : List (Exchange A)} {c : Closing}
    (h : Program.Run (closeSlots cast name e e.shutdownPositions ⟨e.slots, 0, []⟩) tr c) :
    e.Evolves { e with slots := c.slots } := by
  refine ⟨?_, rfl⟩
  show c.slots.map Slot.owner = _
  rw [(closeSlots_course h).slots_eq, List.map_map]
  exact List.map_congr_left fun s _ => s.owner_stopped

theorem shutdown_evolves {tr : List (Exchange A)} {r : ShutdownSummary × Ensemble}
    (h : Program.Run (e.shutdown cast name) tr r) : e.Evolves r.2 := by
  obtain ⟨_, c, _, _, -, -, hclose, -, hdismiss⟩ := shutdown_parts h
  obtain ⟨stuck, rfl⟩ := dismiss_run hdismiss
  exact evolves_closed hclose

theorem launch_evolves {tr : List (Exchange A)} {r : Except LaunchFailure LaunchSummary × Ensemble}
    (h : Program.Run (e.launch cast name) tr r) : e.Evolves r.2 := by
  have hcourse := launch_course h
  refine ⟨hcourse.owners, ?_⟩
  rw [hcourse.launched]
  exact hcourse.eq_with

end Ensemble

/-- **Whatever has been asked of an ensemble, it is the one that it was.** -/
theorem Story.evolves {T : List (Request × List (Exchange A))} (h : Story cast name e T e') :
    e.Evolves e' := by
  induction h with
  | start => exact .refl e
  | @next T e₁ e₂ request tr _ hdone ih =>
    refine ih.trans ?_
    cases request with
    | launch =>
      obtain ⟨r, hrun⟩ := hdone
      exact Ensemble.launch_evolves hrun
    | shutdown =>
      obtain ⟨r, hrun⟩ := hdone
      exact Ensemble.shutdown_evolves hrun
    | serve =>
      obtain ⟨r, hrun⟩ := hdone
      obtain ⟨_, hcourse⟩ := Ensemble.serve_course hrun
      obtain ⟨_, _, _, _, c, -, hlaunch, -, hclose, hsame⟩ := hcourse.parts
      rw [show e₂ = c.2 from hsame]
      exact (Ensemble.launch_evolves hlaunch).trans (Ensemble.shutdown_evolves hclose)

/-! ### When hooks are due -/

/-- Requests after which hooks may be due: there has been a launch, with nothing but shutdowns before it and
nothing but launches since. -/
def IsOngoing (T : List (Request × List (Exchange A))) : Prop :=
  ∃ early tr later, T = early ++ (.launch, tr) :: later ∧ (∀ r ∈ early, r.1 = .shutdown) ∧
    ∀ r ∈ later, r.1 = .launch

theorem IsOngoing.snoc {T : List (Request × List (Exchange A))} (h : IsOngoing T) (tr : List (Exchange A)) :
    IsOngoing (T ++ [(.launch, tr)]) := by
  obtain ⟨early, tr₀, later, rfl, hearly, hlater⟩ := h
  refine ⟨early, tr₀, later ++ [(.launch, tr)], by simp, hearly, ?_⟩
  exact List.forall_mem_append.2 ⟨hlater, List.forall_mem_singleton.2 rfl⟩

theorem Ensemble.shutdown_not_isDue {tr : List (Exchange A)} {r : ShutdownSummary × Ensemble}
    (h : Program.Run (e.shutdown cast name) tr r) :
    (∀ s ∈ r.2.slots, s.isDue = false) ∧ r.2.launched = e.launched := by
  refine ⟨(shutdown_dismisses h).2.1, ?_⟩
  cases shutdown_course h with
  | closed stuck hstopping => rfl

theorem Ensemble.serve_not_isDue {tr : List (Exchange A)}
    {r : Except LaunchFailure ShutdownSummary × Ensemble} (h : Program.Run (e.serve cast name) tr r) :
    (∀ s ∈ r.2.slots, s.isDue = false) ∧ r.2.launched = true := by
  obtain ⟨cause, hcourse⟩ := serve_course h
  obtain ⟨_, _, _, _, c, -, hlaunch, -, hclose, hsame⟩ := hcourse.parts
  obtain ⟨hidle, hlaunched⟩ := shutdown_not_isDue hclose
  rw [hsame, hlaunched]
  exact ⟨hidle, (launch_course hlaunch).launched⟩

/-- **Hooks are due only after a launch**, and not after a shutdown that has come since. -/
theorem Story.isOngoing {T : List (Request × List (Exchange A))} (huntouched : e.Untouched)
    (h : Story cast name e T e') {s : Slot} (hs : s ∈ e'.slots) (hdue : s.isDue = true) : IsOngoing T := by
  -- Either nothing has happened to the ensemble, or it has been launched.
  have hknown : (e' = e ∧ ∀ r ∈ T, r.1 = .shutdown) ∨
      e'.launched = true ∧ (IsOngoing T ∨ ∀ s ∈ e'.slots, s.isDue = false) := by
    clear hs hdue
    induction h with
    | start => exact .inl ⟨rfl, nofun⟩
    | @next T e₁ e₂ request tr _ hdone ih =>
      cases request with
      | launch =>
        obtain ⟨r, hrun⟩ := hdone
        have hcourse := Ensemble.launch_course hrun
        refine .inr ⟨hcourse.launched, ?_⟩
        rcases ih with ⟨-, hearly⟩ | ⟨hlaunched, hsince⟩
        · exact .inl ⟨T, tr, [], rfl, hearly, nofun⟩
        · obtain ⟨-, hend⟩ := hcourse.of_launched hlaunched
          obtain rfl : e₂ = e₁ := (Prod.mk.inj hend).2
          exact hsince.imp (fun hongoing => hongoing.snoc tr) id
      | shutdown =>
        obtain ⟨r, hrun⟩ := hdone
        rcases ih with ⟨rfl, hearly⟩ | ⟨hlaunched, -⟩
        · cases Ensemble.shutdown_course hrun with
          | closed stuck hstopping =>
            obtain ⟨-, rfl⟩ := hstopping.of_forall_not_isDue huntouched.not_isDue
            exact .inl ⟨rfl, List.forall_mem_append.2 ⟨hearly, List.forall_mem_singleton.2 rfl⟩⟩
        · obtain ⟨hidle, hsame⟩ := Ensemble.shutdown_not_isDue hrun
          exact .inr ⟨hsame.trans hlaunched, .inr hidle⟩
      | serve =>
        obtain ⟨r, hrun⟩ := hdone
        obtain ⟨hidle, hlaunched⟩ := Ensemble.serve_not_isDue hrun
        exact .inr ⟨hlaunched, .inr hidle⟩
  rcases hknown with ⟨rfl, -⟩ | ⟨-, hongoing | hidle⟩
  · rw [huntouched.not_isDue s hs] at hdue
    cases hdue
  · exact hongoing
  · rw [hidle s hs] at hdue
    cases hdue

/-! ### The parts -/

namespace Ensemble

/-- A shutdown until the hooks have run and the bus has been told. -/
def runClosing (cast : Cast) (name : String) (e : Ensemble) : Program A Closing := do
  let c ← closeSlots cast name e e.shutdownPositions ⟨e.slots, 0, []⟩
  announceClosing cast e.bus c.ran
  return c

/-- A shutdown until the workers have been waited for; answers what the hooks came to, and who is stuck. -/
def windUp (cast : Cast) (name : String) (e : Ensemble) : Program A (Closing × List String) := do
  let c ← runClosing cast name e
  .ask (.cancel e.runtime)
  let stuck ← Crew.dissolve e.crew e.config.grace
  return (c, stuck)

/-- What is left of a shutdown once the workers have been waited for. -/
def goOff (cast : Cast) (e : Ensemble) (r : Closing × List String) :
    Program A (ShutdownSummary × Ensemble) :=
  leave cast { e with slots := r.1.slots } r.1.failures r.2

theorem shutdown_eq_runClosing : e.shutdown (A := A) cast name
    = runClosing cast name e >>= fun c => dismiss cast { e with slots := c.slots } c.failures := by
  rw [shutdown_eq, runClosing, bind_assoc]
  refine congrArg _ (funext fun c => ?_)
  rw [bind_assoc]
  rfl

theorem shutdown_eq_windUp :
    e.shutdown (A := A) cast name = windUp cast name e >>= goOff cast e := by
  rw [shutdown_eq_runClosing, windUp, bind_assoc]
  refine congrArg _ (funext fun c => ?_)
  rw [dismiss, bind_assoc]
  refine congrArg _ (funext fun _ => ?_)
  rw [bind_assoc]
  rfl

end Ensemble

/-! ### Whom they take off a bus -/

/-- An operation that changes no listeners. -/
def Op.SparesListeners : Op A → Prop
  | .edit .. => False
  | _ => True

/-- An operation that changes no listeners, or takes one of some listeners off a bus. -/
def Op.Withdraws (bus : BusId) (ls : List ListenerId) : Op A → Prop
  | .edit b (.remove l) => b = bus ∧ l ∈ ls
  | .edit _ (.add _) => False
  | _ => True

section

variable {op : Op A}

theorem Op.SparesListeners.withdraws (h : op.SparesListeners) (bus : BusId) (ls : List ListenerId) :
    op.Withdraws bus ls := by
  cases op with
  | edit b edit => exact h.elim
  | _ => trivial

theorem Op.Launches.sparesListeners (h : op.Launches) : op.SparesListeners := by
  cases op with
  | edit b edit => exact h.elim
  | _ => trivial

theorem Op.Dismisses.callsNobody (h : op.Dismisses) : op.CallsNobody := by
  cases op with
  | call callee limit => exact h.elim
  | _ => trivial

end

namespace Ensemble

theorem runClosing_launches : (runClosing (A := A) cast name e).Only Op.Launches := by
  refine Program.only_bind ((closeSlots_callsHooks ..).mono fun _ h => h.launches) fun c => ?_
  refine Program.only_bind ((announceClosing_publishes ..).mono fun _ h => h.launches) fun _ => ?_
  exact Program.only_pure c

theorem dissolve_spares (crew : CrewId) (grace : Duration) :
    (Crew.dissolve (A := A) crew grace).Only Op.SparesListeners := by
  refine Program.only_bind (Program.only_ask trivial) fun emptied => ?_
  cases emptied with
  | true => exact Program.only_pure _
  | false =>
    refine Program.only_bind (Program.only_ask trivial) fun stuck => ?_
    exact Program.only_bind (Program.only_ask trivial) fun _ => Program.only_pure stuck

/-- **Until the workers have been waited for, a shutdown leaves the bus alone.** -/
theorem windUp_spares : (windUp (A := A) cast name e).Only Op.SparesListeners := by
  refine Program.only_bind (runClosing_launches.mono fun _ h => h.sparesListeners) fun c => ?_
  refine Program.only_bind (Program.only_ask trivial) fun _ => ?_
  exact Program.only_bind (dissolve_spares ..) fun stuck => Program.only_pure _

theorem unregisterAll_withdraws {bus : BusId} {ls all : List ListenerId} (h : ls ⊆ all) :
    (unregisterAll (A := A) cast bus ls).Only (Op.Withdraws bus all) := by
  induction ls with
  | nil => exact Program.only_pure ()
  | cons l rest ih =>
    obtain ⟨hl, hrest⟩ := List.cons_subset.1 h
    refine Program.only_bind ?_ fun _ => ih hrest
    refine Program.only_bind (Program.only_ask ⟨rfl, hl⟩) fun changed => ?_
    cases changed with
    | true => exact Program.only_bind (Program.only_ask trivial) fun _ => Program.only_pure _
    | false => exact Program.only_pure _

theorem leave_withdraws (failures : List Fault) (stuck : List String) :
    (leave (A := A) cast e failures stuck).Only (Op.Withdraws e.bus e.members) := by
  refine Program.only_bind (unregisterAll_withdraws (List.subset_append_left _ _)) fun _ => ?_
  refine Program.only_bind (unregisterAll_withdraws (List.subset_append_right _ _)) fun _ => ?_
  exact Program.only_bind (Program.only_ask trivial) fun _ => Program.only_pure _

theorem leave_dismisses (failures : List Fault) (stuck : List String) :
    (leave (A := A) cast e failures stuck).Only Op.Dismisses := by
  refine Program.only_bind (unregisterAll_dismisses ..) fun _ => ?_
  refine Program.only_bind (unregisterAll_dismisses ..) fun _ => ?_
  exact Program.only_bind (Program.only_ask trivial) fun _ => Program.only_pure _

/-- Winding up has run the hooks. -/
theorem windUp_evolves {tr : List (Exchange A)} {r : Closing × List String}
    (h : Program.Run (windUp cast name e) tr r) : e.Evolves { e with slots := r.1.slots } := by
  obtain ⟨_, c, _, rfl, hclosing, hcancel⟩ := Program.run_bind_iff.1 h
  obtain ⟨⟨⟩, _, rfl, hdissolve⟩ := Program.run_ask_bind_iff.1 hcancel
  obtain ⟨_, stuck, _, rfl, -, hend⟩ := Program.run_bind_iff.1 hdissolve
  obtain ⟨-, rfl⟩ := Program.run_pure_iff.1 hend
  obtain ⟨_, c', _, rfl, hclose, htold⟩ := Program.run_bind_iff.1 hclosing
  obtain ⟨_, _, _, rfl, -, hreturn⟩ := Program.run_bind_iff.1 htold
  obtain ⟨-, rfl⟩ := Program.run_pure_iff.1 hreturn
  exact evolves_closed hclose

/-- **A shutdown takes its own members off its own bus, and nobody else.** -/
theorem shutdown_withdraws :
    (e.shutdown (A := A) cast name).Only (Op.Withdraws e.bus e.members) := by
  rw [shutdown_eq_windUp]
  refine Program.only_bind_of_run (windUp_spares.mono fun _ h => h.withdraws _ _) fun tr r hrun => ?_
  have hleave : (goOff (A := A) cast e r).Only
      (Op.Withdraws e.bus ({ e with slots := r.1.slots } : Ensemble).members) :=
    leave_withdraws (e := { e with slots := r.1.slots }) _ _
  rwa [(windUp_evolves hrun).members] at hleave

end Ensemble

theorem mem_changesTo {b : BusId} {edit : Edit} {tr : List (Exchange A)} :
    edit ∈ changesTo b tr ↔ ∃ changed, (⟨.edit b edit, changed⟩ : Exchange A) ∈ tr := by
  rw [changesTo, List.mem_filterMap]
  constructor
  · rintro ⟨⟨op, answer⟩, hy, hedit⟩
    cases op with
    | edit b' edit' =>
      have hsame : (if b' = b then some edit' else none) = some edit := hedit
      split at hsame
      · next hb =>
        subst hb
        obtain rfl := Option.some.inj hsame
        exact ⟨answer, hy⟩
      · cases hsame
    | _ => cases hedit
  · rintro ⟨changed, hy⟩
    exact ⟨_, hy, if_pos rfl⟩

/-- Whoever has built an ensemble has been asked to add each of its members to the bus. -/
theorem Blueprint.build_adds {a : Blueprint} {bus : BusId} {tr : List (Exchange A)}
    (h : Program.Run (a.build cast bus) tr (.ok e)) :
    ∀ l ∈ e.members, ∃ changed, ⟨.edit e.bus (.add l), changed⟩ ∈ tr := by
  obtain ⟨hbus, -⟩ := build_asked h
  obtain ⟨modules, hordered, hmodules, -, hlisteners, -⟩ := build_run h
  obtain ⟨-, hchanges⟩ := build_changes hordered h
  intro l hl
  rw [hbus]
  refine mem_changesTo.1 ?_
  rw [hchanges, ← hmodules, ← hlisteners]
  exact List.mem_map_of_mem hl

/-! ### Steps and what they leave -/

namespace Machine.Execution

variable {w : World A} {x : Execution w} {t : TaskId} {calls : Calls A} {passes : List Pass} {α : Type}
  {p : Program A α} {next : α → Program A Outcome} {b : BusId} {i j m n : Nat}

/-- With the step after `n` steps a task takes a step by itself on its way through a program. -/
def IsStepOf (x : Execution w) (p : Program A α) (n : Nat) : Prop :=
  ∃ t calls next i, x.Amid t calls p next i n ∧ x.IsOwn t calls.length n

/-- On its way through a program that calls nobody, a task takes its steps by itself. -/
theorem Amid.isOwn (h : x.Amid t calls p next i n) (hp : p.Only Op.CallsNobody)
    (hturn : x.turn n = some t) : x.IsOwn t calls.length n := by
  cases h with
  | idle _ _ _ hk => exact ⟨hturn, _, hk, rfl⟩
  | @busy tr op rest m m' hleads _ _ hm hawaits =>
    obtain ⟨k, hk, hpends⟩ := hawaits.pends n hm (Nat.le_refl n)
    have hop : op.CallsNobody := (hleads.only hp).1
    rcases hpends with ⟨wait, passes, -, rfl⟩ | hcalled
    · exact ⟨hturn, _, hk, rfl⟩
    · cases op with
      | call callee limit => exact hop.elim
      | _ => exact hcalled.elim

/-- The changes from one moment to another are those of the steps between them. -/
theorem exists_makes (hij : i ≤ j) : ∃ es, x.Makes b es i j ∧
    ∀ edit, edit ∈ es ↔ ∃ m, i ≤ m ∧ m < j ∧ x.edit b m = some edit := by
  induction hij with
  | refl => exact ⟨[], .refl i, fun edit => ⟨fun h => (nomatch h), fun ⟨m, hi, hm, _⟩ => by omega⟩⟩
  | @step j hij ih =>
    obtain ⟨es, hmakes, hes⟩ := ih
    refine ⟨_, hmakes.trans (makes_succ j), fun edit => ?_⟩
    rw [List.mem_append, hes, Option.mem_toList]
    constructor
    · rintro (⟨m, hi, hm, hedit⟩ | hedit)
      · exact ⟨m, hi, Nat.lt_succ_of_lt hm, hedit⟩
      · exact ⟨j, hij, Nat.lt_succ_self j, hedit⟩
    · rintro ⟨m, hi, hm, hedit⟩
      rcases Nat.lt_succ_iff_lt_or_eq.1 hm with hm | rfl
      · exact .inl ⟨m, hi, hm, hedit⟩
      · exact .inr hedit

theorem foldl_removals {es : List Edit} (h : ∀ edit ∈ es, ∃ l, edit = .remove l) (set : List ListenerId) :
    es.foldl (fun set edit => edit.apply set) set = set.filter fun l => .remove l ∉ es := by
  induction es generalizing set with
  | nil => simp
  | cons edit rest ih =>
    obtain ⟨l, rfl⟩ := h edit List.mem_cons_self
    rw [List.foldl_cons, ih fun edit hedit => h edit (List.mem_cons_of_mem _ hedit), Edit.apply,
      List.filter_filter]
    refine List.filter_congr fun l' _ => ?_
    simp [Bool.and_comm]

/-- **Where some have been removed and nothing else has been done, all others are left**, in their order. -/
theorem listeners_of_removals {ls : List ListenerId} (hij : i ≤ j)
    (honly : ∀ m, i ≤ m → m < j → ∀ edit, x.edit b m = some edit → ∃ l ∈ ls, edit = .remove l)
    (hall : ∀ l ∈ ls, ∃ m, i ≤ m ∧ m < j ∧ x.edit b m = some (.remove l)) :
    x.listeners b j = (x.listeners b i).filter fun l => l ∉ ls := by
  obtain ⟨es, hmakes, hes⟩ := exists_makes (x := x) (b := b) hij
  have hremovals : ∀ edit ∈ es, ∃ l ∈ ls, edit = .remove l := by
    intro edit hedit
    obtain ⟨m, hi, hm, hm'⟩ := (hes edit).1 hedit
    exact honly m hi hm edit hm'
  rw [hmakes.listeners, foldl_removals fun edit hedit => (hremovals edit hedit).imp fun _ h => h.2]
  refine List.filter_congr fun l _ => decide_eq_decide.2 (not_congr ?_)
  constructor
  · intro hedit
    obtain ⟨l', hl', heq⟩ := hremovals _ hedit
    cases heq
    exact hl'
  · intro hl
    exact (hes _).2 (hall l hl)

end Machine.Execution

/-! ### A lifetime -/

/-- After a shutdown the main task waits for a moment and stores the ensemble. -/
def Program.parted (r : ShutdownSummary × Ensemble) : Program .bare Outcome :=
  .perform (.sleep 1) fun _ => .perform (.keep "sample" r.2) fun _ => .done (.ok ())

/-- Whatever has come of the launch, the main task looks at what is stored, stores the ensemble again and shuts
it down. -/
def Program.closing (r : Except LaunchFailure LaunchSummary × Ensemble) : Program .bare Outcome :=
  .perform (.stored "sample") fun _ => .perform (.keep "sample" r.2) fun _ =>
    r.2.shutdown .sample "sample" >>= Program.parted

/-- An ensemble that has been built is stored, launched and shut down, and shut down before if need be. -/
def Program.lived (early : Bool) : Except LaunchFailure Ensemble → Program .bare Outcome
  | .ok e => .perform (.keep "sample" e) fun _ =>
    if early then
      e.shutdown .sample "sample" >>= fun r => r.2.launch .sample "sample" >>= Program.closing
    else e.launch .sample "sample" >>= Program.closing
  | .error _ => .perform .hang nofun

/-- Somebody else is registered; then the main task builds an ensemble, launches it and shuts it down. -/
def Machine.Execution.lifetime (early : Bool) : Execution World.bare :=
  .directed World.bare 1 (Bus.register .sample 0 9 >>= fun _ =>
    Blueprint.required.build .sample 0 >>= Program.lived early) () (List.replicate 200 (.step 0))

/-- What a launch does not ask for, but whoever looks at what is stored does. -/
def Op.isStored : Op A → Bool
  | .stored _ => true
  | _ => false

theorem Op.Launches.not_isStored {op : Op A} (h : op.Launches) : op.isStored = false := by
  unfold Launches at h
  split at h <;> first | rfl | exact h.elim

namespace Machine.Execution

/-- The ensemble has been built after 26 steps. -/
theorem lifetime_built (early : Bool) : ∃ tr, (lifetime early).Returns 0 []
    (Blueprint.required.build .sample 0) (Program.lived early) 5 26 tr
      (.ok (.required .unstarted false)) := by
  have hnext : ∀ r, ∃ op rest, Program.lived early r = .perform op rest ∧ op.isUnbuilt = true := by
    intro r
    cases r with
    | ok e => exact ⟨_, _, rfl, rfl⟩
    | error f => exact ⟨_, _, rfl, rfl⟩
  have hwithin : ∀ n, n ≤ 26 → 5 ≤ n →
      (((lifetime early).state n).core 0).any (Core.isWithin 0) = true := by
    cases early <;> decide +kernel
  have hfirst : ∀ m, m < 26 → 5 ≤ m →
      (((lifetime early).state m).core 0).any (Core.asks Op.isUnbuilt 0) = false := by
    cases early <;> decide +kernel
  have hend : ((lifetime early).state 26).core 0
      = some ⟨.running (Program.lived early (.ok (.required .unstarted false))), [], []⟩ := by
    cases early <;> rfl
  obtain ⟨tr, r, hreturns, hsame⟩ := returns_of
    (Blueprint.build_builds.mono fun _ h => h.not_isUnbuilt) hnext (uncut_of_isWithin hwithin)
    (by decide) rfl hend hfirst
  cases r with
  | ok e =>
    obtain ⟨hkeep, -⟩ := Program.perform.inj hsame
    obtain ⟨-, rfl⟩ := Op.keep.inj hkeep
    exact ⟨tr, hreturns⟩
  | error f => cases hsame

set_option maxRecDepth 4000 in
/-- Without a shutdown before it the launch has ended after 130 steps. -/
theorem lifetime_launched : ∃ tr result, (lifetime false).Returns 0 []
    ((Ensemble.required .unstarted false).launch .sample "sample") Program.closing 27 130 tr
      (result, .required .postLaunched true) := by
  have hnext : ∀ r, ∃ op rest, Program.closing r = .perform op rest ∧ op.isStored = true :=
    fun r => ⟨_, _, rfl, rfl⟩
  have hwithin : ∀ n, n ≤ 130 → 27 ≤ n →
      (((lifetime false).state n).core 0).any (Core.isWithin 0) = true := by
    decide +kernel
  have hfirst : ∀ m, m < 130 → 27 ≤ m →
      (((lifetime false).state m).core 0).any (Core.asks Op.isStored 0) = false := by
    decide +kernel
  have hend : ((lifetime false).state 130).core 0 = some ⟨.running (Program.closing
      (.ok ⟨["credentials", "console", "gateway"], []⟩, .required .postLaunched true)), [], []⟩ := rfl
  obtain ⟨tr, ⟨result, e⟩, hreturns, hsame⟩ := returns_of
    (Ensemble.launch_launches.mono fun _ h => h.not_isStored) hnext (uncut_of_isWithin hwithin)
    (by decide) rfl hend hfirst
  have hstored := congrFun (eq_of_heq (Program.perform.inj hsame).2) none
  obtain ⟨-, rfl⟩ := Op.keep.inj (Program.perform.inj hstored).1
  exact ⟨tr, result, hreturns⟩

/-- That is all that has been asked of the ensemble before the shutdown. -/
theorem lifetime_story : ∃ T : List (Request × List (Exchange .bare)),
    Story Cast.sample "sample" (.required .unstarted false) T (.required .postLaunched true) := by
  obtain ⟨tr, result, hlaunch⟩ := lifetime_launched
  exact ⟨_, History.next (r := Request.launch) .start ⟨result, hlaunch.run⟩⟩

end Machine.Execution

end Orchestra
