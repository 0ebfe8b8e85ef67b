import Orchestra.Proofs.Story
import Orchestra.Proofs.Stages
import Orchestra.Proofs.Tokens
import Orchestra.Proofs.Tracing

/-!
# Modules that are connected

A module is connected as long as it is registered on the bus of its ensemble and its token has not been
cancelled.  Building connects the modules, a launch leaves the connection alone, and a shutdown ends it: also
one before the first launch, which takes nothing else from the launch.

* `Op.Builds` — what is asked in order to build an ensemble;
* `build_asked` — what has been asked once an ensemble has been built;
* `Execution.Connected`, `Execution.Disconnects` — a module is connected, and a step that takes a module off
  the bus or cancels a token of the ensemble;
* `Execution.Through.registered`, `Execution.Returns.uncancelled` — building connects, and nothing else
  disconnects;
* `launch_connects` — a launch that succeeds leaves its modules connected, unless somebody has disconnected
  one since they were built.
-/

namespace Orchestra

variable {A : Application}

/-! ### Building -/

/-- What is asked in order to build an ensemble. -/
def Op.Builds : Op A → Prop
  | .newToken _ | .newCrew | .edit _ (.add _) | .record _ => True
  | _ => False

theorem Bus.register_builds (cast : Cast) (bus : BusId) (l : ListenerId) :
    (register (A := A) cast bus l).Only Op.Builds := by
  refine Program.only_bind (Program.only_ask trivial) fun changed => ?_
  cases changed with
  | true => exact Program.only_bind (Program.only_ask trivial) fun _ => Program.only_pure _
  | false => exact Program.only_pure _

/-- Registering asks for a change to the listeners. -/
theorem Bus.register_asked {cast : Cast} {bus : BusId} {l : ListenerId} {tr : List (Exchange A)}
    {changed : Bool} (h : Program.Run (register cast bus l) tr changed) :
    ⟨.edit bus (.add l), changed⟩ ∈ tr := by
  obtain ⟨answer, tr, rfl, hrecord⟩ := Program.run_ask_bind_iff.1 h
  cases answer with
  | true =>
    obtain ⟨_, tr, rfl, hend⟩ := Program.run_ask_bind_iff.1 hrecord
    obtain ⟨rfl, rfl⟩ := Program.run_pure_iff.1 hend
    exact List.mem_cons_self
  | false =>
    obtain ⟨rfl, rfl⟩ := Program.run_pure_iff.1 hrecord
    exact List.mem_cons_self

/-- The slot's module has been given a token made from the runtime token, and has been registered. -/
def Slot.Equipped (bus : BusId) (runtime : TokenId) (tr : List (Exchange A)) (s : Slot) : Prop :=
  ⟨.newToken (some runtime), s.kit.token⟩ ∈ tr ∧ ∃ changed, ⟨.edit bus (.add s.module), changed⟩ ∈ tr

theorem Slot.Equipped.mono {bus : BusId} {runtime : TokenId} {tr tr' : List (Exchange A)} {s : Slot}
    (h : s.Equipped bus runtime tr) (htr : tr ⊆ tr') : s.Equipped bus runtime tr' := by
  obtain ⟨htoken, changed, hedit⟩ := h
  exact ⟨htr htoken, changed, htr hedit⟩

namespace Blueprint

variable {cast : Cast} {bus : BusId} {a : Blueprint}

theorem fillSlots_builds (types : TypeCatalogue) (runtime request : TokenId) (crew : CrewId)
    (modules : List ListenerId) (slots : List Slot) :
    (fillSlots (A := A) cast bus types runtime request crew modules slots).Only Op.Builds := by
  induction modules generalizing slots with
  | nil => exact Program.only_pure _
  | cons m rest ih =>
    rw [fillSlots]
    split
    · exact Program.only_pure _
    · refine Program.only_bind (Program.only_ask trivial) fun token => ?_
      refine Program.only_bind (Bus.register_builds ..) fun _ => ?_
      exact Program.only_bind (Program.only_ask trivial) fun _ => ih _

theorem registerAll_builds (ls : List ListenerId) :
    (registerAll (A := A) cast bus ls).Only Op.Builds := by
  induction ls with
  | nil => exact Program.only_pure ()
  | cons l rest ih => exact Program.only_bind (Bus.register_builds ..) fun _ => ih

/-- Building takes nobody off a bus and cancels nothing. -/
theorem build_builds : (a.build (A := A) cast bus).Only Op.Builds := by
  unfold build
  split
  · exact Program.only_pure _
  · refine Program.only_bind (Program.only_ask trivial) fun runtime => ?_
    refine Program.only_bind (Program.only_ask trivial) fun request => ?_
    refine Program.only_bind (Program.only_ask trivial) fun crew => ?_
    refine Program.only_bind (fillSlots_builds ..) fun filled => ?_
    cases filled with
    | error refusal => exact Program.only_pure _
    | ok slots => exact Program.only_bind (registerAll_builds _) fun _ => Program.only_pure _

theorem fillSlots_asked {types : TypeCatalogue} {runtime request : TokenId} {crew : CrewId}
    {modules : List ListenerId} {slots slots' : List Slot} {tr : List (Exchange A)}
    (h : Program.Run (fillSlots cast bus types runtime request crew modules slots) tr (.ok slots')) :
    ∀ s ∈ slots', s ∈ slots ∨ s.Equipped bus runtime tr := by
  induction modules generalizing slots tr with
  | nil =>
    obtain ⟨-, hslots⟩ := Program.run_pure_iff.1 h
    exact fun s hs => .inl (Except.ok.inj hslots ▸ hs)
  | cons m rest ih =>
    rw [fillSlots] at h
    split at h
    · cases (Program.run_pure_iff.1 h).2
    obtain ⟨token, _, rfl, hregister⟩ := Program.run_ask_bind_iff.1 h
    obtain ⟨registered, changed, _, rfl, hregistered, hrecord⟩ := Program.run_bind_iff.1 hregister
    obtain ⟨_, later, rfl, hrest⟩ := Program.run_ask_bind_iff.1 hrecord
    intro s hs
    rcases ih hrest s hs with hearlier | hequipped
    · rcases List.mem_append.1 hearlier with hbefore | hnew
      · exact .inl hbefore
      · obtain rfl := List.mem_singleton.1 hnew
        refine .inr ⟨List.mem_cons_self, changed, List.mem_cons_of_mem _ ?_⟩
        exact List.mem_append_left _ (Bus.register_asked hregistered)
    · refine .inr (hequipped.mono fun y hy => ?_)
      exact List.mem_cons_of_mem _ (List.mem_append_right _ (List.mem_cons_of_mem _ hy))

/-- What has been asked once an ensemble has been built: first of all its runtime token. -/
theorem build_asked {e : Ensemble} {tr : List (Exchange A)}
    (h : Program.Run (a.build cast bus) tr (.ok e)) : e.bus = bus ∧
      ∃ rest, tr = ⟨.newToken none, e.runtime⟩ :: rest ∧ ∀ s ∈ e.slots, s.Equipped bus e.runtime rest := by
  unfold build at h
  split at h
  · simp at h
  next entries hordered =>
    obtain ⟨runtime, _, rfl, hrequest⟩ := Program.run_ask_bind_iff.1 h
    obtain ⟨request, _, rfl, hcrew⟩ := Program.run_ask_bind_iff.1 hrequest
    obtain ⟨crew, _, rfl, hslots⟩ := Program.run_ask_bind_iff.1 hcrew
    obtain ⟨_, filled, later, rfl, hfill, hregister⟩ := Program.run_bind_iff.1 hslots
    cases filled with
    | error refusal => cases (Program.run_pure_iff.1 hregister).2
    | ok filled =>
      obtain ⟨_, _, _, rfl, -, hreturn⟩ := Program.run_bind_iff.1 hregister
      obtain ⟨-, he⟩ := Program.run_pure_iff.1 hreturn
      obtain rfl := Except.ok.inj he
      refine ⟨rfl, _, rfl, fun s hs => ?_⟩
      rcases fillSlots_asked hfill s hs with hnone | hequipped
      · cases hnone
      · refine hequipped.mono fun y hy => ?_
        exact List.mem_cons_of_mem _ (List.mem_cons_of_mem _ (List.mem_append_left _ hy))

end Blueprint

/-! ### What is connected, and what disconnects -/

/-- The tokens of an ensemble: the runtime token, and one for each module. -/
def Ensemble.tokens (e : Ensemble) : List TokenId := e.runtime :: e.slots.map fun s => s.kit.token

theorem Ensemble.mem_tokens {e : Ensemble} {token : TokenId} :
    token ∈ e.tokens ↔ token = e.runtime ∨ ∃ s ∈ e.slots, s.kit.token = token := by
  rw [tokens, List.mem_cons, List.mem_map]

theorem Ensemble.runtime_mem_tokens {e : Ensemble} : e.runtime ∈ e.tokens := List.mem_cons_self

namespace Machine.Execution

variable {w : World A} {x : Execution w}

/-- After `n` steps a slot's module is registered on a bus, and its token has not been cancelled. -/
structure Connected (x : Execution w) (b : BusId) (s : Slot) (n : Nat) : Prop where
  registered : s.module ∈ x.listeners b n
  token : (x.state n).isCancelled s.kit.token = false

/-- With the step after `n` steps a module of an ensemble is taken off the bus, or a token of the ensemble
that there is gets cancelled. -/
inductive Disconnects (x : Execution w) (e : Ensemble) (n : Nat) : Prop where
  | removes {l : ListenerId} : l ∈ e.modules → x.edit e.bus n = some (.remove l) → Disconnects x e n
  | cancels {token : TokenId} : token = e.runtime ∨ (∃ s ∈ e.slots, s.kit.token = token) →
      token < (x.state n).tokens.length → (x.state n).isCancelled token = false →
      (x.state (n + 1)).isCancelled token = true → Disconnects x e n

/-- With the step after `n` steps a token of an ensemble that there is gets cancelled. -/
def Cancels (x : Execution w) (e : Ensemble) (n : Nat) : Prop :=
  ∃ token ∈ e.tokens, token < (x.state n).tokens.length ∧ (x.state n).isCancelled token = false ∧
    (x.state (n + 1)).isCancelled token = true

variable {t : TaskId} {calls : Calls A} {passes : List Pass} {α : Type} {p : Program A α}
  {next : α → Program A Outcome} {P : Op A → Prop} {i j m n : Nat}

theorem Cancels.disconnects {e : Ensemble} (h : x.Cancels e n) : x.Disconnects e n := by
  obtain ⟨token, hmine, hthere, hbefore, hafter⟩ := h
  exact .cancels (Ensemble.mem_tokens.1 hmine) hthere hbefore hafter

/-- Whoever is about to perform an operation by itself, on its way through a program, asks for that one. -/
theorem Amid.of_isAboutTo (h : x.Amid t calls p next i n) (hp : p.Only P)
    (hown : x.IsOwn t calls.length n) {op : Op A} (habout : (x.state n).IsAboutTo t op) : P op := by
  obtain ⟨-, k, hk, hlevel⟩ := hown
  obtain ⟨op', hop', hserves⟩ := h.serves hp hk hlevel
  obtain ⟨next', calls', passes', hcore⟩ := habout
  obtain rfl := Option.some.inj (hk.symm.trans hcore)
  obtain rfl : op = op' := hserves
  exact hop'

/-- A task cancels nothing by itself on its way through a program that does not. -/
theorem Amid.not_cancels (h : x.Amid t calls p next i n) (hp : p.Only P)
    (hown : x.IsOwn t calls.length n) (hcancel : ∀ token, ¬ P (.cancel token)) (e : Ensemble) :
    ¬ x.Cancels e n := by
  rintro ⟨token, -, htoken, hbefore, hafter⟩
  have heffect := State.advance_effect (advance_of_turn hown.1)
  have hsame := heffect.isCancelled_eq
    (fun k habout => hcancel k (h.of_isAboutTo hp hown habout)) htoken
  rw [hsame, hbefore] at hafter
  cases hafter

/-- A task disconnects nobody by itself on its way through a program that neither removes nor cancels. -/
theorem Amid.not_disconnects (h : x.Amid t calls p next i n) (hp : p.Only P)
    (hown : x.IsOwn t calls.length n) (hremove : ∀ b l, ¬ P (.edit b (.remove l)))
    (hcancel : ∀ token, ¬ P (.cancel token)) (e : Ensemble) : ¬ x.Disconnects e n := by
  intro hdisconnects
  cases hdisconnects with
  | removes _ hedit => exact hremove _ _ (h.edit hp hown hedit)
  | cancels hmine hthere hbefore hafter =>
    exact h.not_cancels hp hown hcancel e ⟨_, Ensemble.mem_tokens.2 hmine, hthere, hbefore, hafter⟩

/-- A new token comes after all others. -/
theorem Answers.newToken_tokens {parent : Option TokenId} {token : TokenId}
    (h : x.Answers t calls ⟨.newToken parent, token⟩ m n) :
    token = (x.state n).tokens.length ∧ (x.state (n + 1)).tokens = (x.state n).tokens
      ++ [⟨parent, (parent.map fun k => (x.state n).isCancelled k).getD false⟩] := by
  obtain ⟨-, next, passes, -, hstate, -⟩ := h.at_once (fun _ _ => id) fun _ _ _ => id
  refine ⟨h.tells, ?_⟩
  rw [hstate]
  rfl

/-- A new token is cancelled from the start if the one is that it is made from. -/
theorem Answers.newToken {parent : Option TokenId} {token : TokenId}
    (h : x.Answers t calls ⟨.newToken parent, token⟩ m n) :
    token < (x.state (n + 1)).tokens.length ∧ (x.state (n + 1)).isCancelled token
      = (parent.map fun k => (x.state n).isCancelled k).getD false := by
  obtain ⟨htells, htokens⟩ := h.newToken_tokens
  refine ⟨?_, ?_⟩
  · rw [htells, htokens, List.length_append]
    exact Nat.lt_succ_self _
  · rw [State.isCancelled, htokens, htells, List.getElem?_concat_length]
    rfl

/-- A token that has not been cancelled is not cancelled until a token of its ensemble is. -/
theorem uncancelled_mono (hx : x.IsProper) {e : Ensemble} {token : TokenId} (hmn : m ≤ n)
    (hmine : token ∈ e.tokens) (htoken : token < (x.state m).tokens.length)
    (hfree : (x.state m).isCancelled token = false) (hnone : ∀ k, m ≤ k → k < n → ¬ x.Cancels e k) :
    (x.state n).isCancelled token = false := by
  induction hmn with
  | refl => exact hfree
  | @step n hmn ih =>
    have hbefore := ih fun k hk hkn => hnone k hk (Nat.lt_succ_of_lt hkn)
    have hthere := Nat.lt_of_lt_of_le htoken (hx.length_mono hmn)
    refine Bool.eq_false_iff.2 fun hafter => ?_
    exact hnone n hmn (Nat.lt_succ_self n) ⟨token, hmine, hthere, hbefore, hafter⟩

/-- Whoever has been asked for to be added is registered until he is removed. -/
theorem Through.registered {tr : List (Exchange A)} {b : BusId} {l : ListenerId} {changed : Bool}
    (h : x.Through t calls tr i n) (hadded : ⟨.edit b (.add l), changed⟩ ∈ tr) (hnj : n ≤ j)
    (hnone : ∀ m, i ≤ m → m < j → x.edit b m ≠ some (.remove l)) : l ∈ x.listeners b j := by
  obtain ⟨m, n', hm, hn', hanswers⟩ := h.answers hadded
  have hle := hanswers.le
  have hmem : l ∈ x.listeners b (n' + 1) := mem_listeners_succ.2 (.inl hanswers.edit_eq)
  exact mem_mono (by omega) hmem fun k hk hkj => hnone k (by omega) hkj

section

variable {a : Blueprint} {cast : Cast} {bus : BusId} {e : Ensemble}
  {k : Except LaunchFailure Ensemble → Program A Outcome} {tr : List (Exchange A)}

/-- **Building makes fresh tokens**, and they are not cancelled until somebody cancels one of them. -/
theorem Returns.uncancelled (hx : x.IsProper)
    (h : x.Returns t calls (a.build cast bus) k i n tr (.ok e)) (hnj : n ≤ j)
    (hnone : ∀ m, i ≤ m → m < j → ¬ x.Cancels e m) :
    ∀ token ∈ e.tokens, (x.state j).isCancelled token = false := by
  obtain ⟨rfl, rest, rfl, hequipped⟩ := Blueprint.build_asked h.run
  cases h.through with
  | @cons _ _ _ m₀ n₀ _ hm₀ hruntime hrest =>
    -- There is the runtime token from then on, and it is not cancelled.
    obtain ⟨hthere, hfresh⟩ := hruntime.newToken
    have hle := hruntime.le
    have hle' := hrest.le
    have hruntime' : ∀ m, n₀ + 1 ≤ m → m ≤ j → (x.state m).isCancelled e.runtime = false :=
      fun m hm hmj => uncancelled_mono hx hm Ensemble.runtime_mem_tokens hthere hfresh
        fun k hk hkm => hnone k (by omega) (by omega)
    intro token htoken
    rcases Ensemble.mem_tokens.1 htoken with rfl | ⟨s, hs, rfl⟩
    · exact hruntime' j (by omega) (Nat.le_refl j)
    · obtain ⟨hasked, -⟩ := hequipped s hs
      obtain ⟨m, n', hm, hn', hanswers⟩ := hrest.answers hasked
      have hle'' := hanswers.le
      obtain ⟨hmade, hcancelled⟩ := hanswers.newToken
      rw [Option.map_some, Option.getD_some, hruntime' n' (by omega) (by omega)] at hcancelled
      exact uncancelled_mono hx (by omega) htoken hmade hcancelled
        fun k hk hkj => hnone k (by omega) hkj

/-- **Building connects every module**, and as long as nobody disconnects one they stay so. -/
theorem Returns.connected (hx : x.IsProper) (h : x.Returns t calls (a.build cast bus) k i n tr (.ok e))
    (hnj : n ≤ j) (hnone : ∀ m, i ≤ m → m < j → ¬ x.Disconnects e m) :
    ∀ s ∈ e.slots, x.Connected e.bus s j := by
  intro s hs
  obtain ⟨rfl, rest, rfl, hequipped⟩ := Blueprint.build_asked h.run
  obtain ⟨-, changed, hadded⟩ := hequipped s hs
  refine ⟨h.through.registered (List.mem_cons_of_mem _ hadded) hnj fun m hm hmj hremoved => ?_, ?_⟩
  · exact hnone m hm hmj (.removes (List.mem_map_of_mem hs) hremoved)
  · exact h.uncancelled hx hnj (fun m hm hmj hcancels => hnone m hm hmj hcancels.disconnects) _
      (Ensemble.mem_tokens.2 (.inr ⟨s, hs, rfl⟩))

end

end Machine.Execution

/-! ### The main result -/

open Machine

variable {w : World A}

/-- A launch that succeeds is the first one, of the ensemble as it was built, whatever else has been asked
of it; it leaves every module with its kit, and reports those that are active. -/
theorem Story.of_launch_ok {cast : Cast} {name : String} {e e' e'' : Ensemble} {report : LaunchSummary}
    {T : List (Request × List (Exchange A))} {tr : List (Exchange A)} (huntouched : e.Untouched)
    (hstory : Story cast name e T e')
    (hrun : Program.Run (e'.launch cast name) tr (.ok report, e'')) :
    e' = e ∧ report.active = Ensemble.activeNames cast e''.slots ∧
      e''.slots.map Slot.owner = e.slots.map Slot.owner := by
  have hcourse := Ensemble.launch_course hrun
  have howners := hcourse.owners
  generalize deeds tr = ds, hr : (Except.ok report, e'') = r at hcourse
  cases hcourse with
  | completed hfirst _ _ _ _ _ _ =>
    obtain ⟨hreport, rfl⟩ := Prod.mk.inj hr
    obtain rfl := Except.ok.inj hreport
    obtain ⟨rfl, -⟩ := hstory.of_unlaunched huntouched hfirst
    exact ⟨rfl, rfl, howners⟩
  | _ => cases (Prod.mk.inj hr).1

/-- **A launch that succeeds leaves its modules connected**, unless somebody has disconnected one since the
ensemble was built, be it with a shutdown: whatever has been asked of the ensemble before, and whoever
launches it, every module is registered on the bus when the launch returns, and no token has been
cancelled. -/
theorem launch_connects (x : Execution w) (hx : x.IsProper) (cast : Cast) (name : String)
    -- Task `t` has built the ensemble,
    (a : Blueprint) (bus : BusId) (k : Except LaunchFailure Ensemble → Program A Outcome) (t : TaskId)
    (calls : Calls A) (i n : Nat) (tr : List (Exchange A)) (e : Ensemble)
    (hbuild : x.Returns t calls (a.build cast bus) k i n tr (.ok e))
    -- something has been asked of it,
    (T : List (Request × List (Exchange A))) (e' : Ensemble) (hstory : Story cast name e T e')
    -- and task `t'` has launched it with success.
    (next : Except LaunchFailure LaunchSummary × Ensemble → Program A Outcome) (t' : TaskId)
    (calls' : Calls A) (i' n' : Nat) (tr' : List (Exchange A)) (report : LaunchSummary) (e'' : Ensemble)
    (hlater : n ≤ i')
    (hlaunch : x.Returns t' calls' (e'.launch cast name) next i' n' tr' (.ok report, e''))
    -- Nobody else has disconnected one of its modules.
    (hquiet : ∀ m, i ≤ m → m < n' → x.Disconnects e m →
      m < n ∧ x.IsOwn t calls.length m ∨ i' ≤ m ∧ x.IsOwn t' calls'.length m) :
    report.active = Ensemble.activeNames cast e''.slots ∧
      ∀ s ∈ e''.slots, x.Connected e.bus s n' := by
  obtain ⟨_, _, _, _, _, _, huntouched⟩ := Blueprint.build_run hbuild.run
  obtain ⟨-, hactive, howners⟩ := hstory.of_launch_ok huntouched hlaunch.run
  refine ⟨hactive, fun s hs => ?_⟩
  -- Neither building nor the launch disconnects anybody.
  have hnone : ∀ m, i ≤ m → m < n' → ¬ x.Disconnects e m := by
    intro m hm hmn' hdisconnects
    rcases hquiet m hm hmn' hdisconnects with ⟨hmn, hown⟩ | ⟨hi', hown⟩
    · exact (hbuild.amid m hm hmn).not_disconnects Blueprint.build_builds hown
        (fun _ _ => id) (fun _ => id) e hdisconnects
    · exact (hlaunch.amid m hi' hmn').not_disconnects Ensemble.launch_launches hown
        (fun _ _ => id) (fun _ => id) e hdisconnects
  have hle := hlaunch.through.le
  have hmem : s.owner ∈ e.slots.map Slot.owner := howners ▸ List.mem_map_of_mem hs
  obtain ⟨s₀, hs₀, howner⟩ := List.mem_map.1 hmem
  obtain ⟨hmodule, hkit⟩ := Prod.mk.inj howner
  obtain ⟨hregistered, htoken⟩ := hbuild.connected hx (Nat.le_trans hlater hle) hnone s₀ hs₀
  exact ⟨hmodule ▸ hregistered, hkit ▸ htoken⟩

/-! ### A shutdown before the launch -/

/-- A module of each required kind. -/
def Blueprint.required : Blueprint := { modules := [4, 1, 0] }

/-- What is built from it, at a stage of its modules. -/
def Ensemble.required (stage : Stage) (launched : Bool) : Ensemble where
  config := {}
  bus := 0
  types := .core
  slots := [(0, 2), (1, 3), (4, 4)].filterMap fun (m, token) =>
    (TypeCatalogue.core.find? (Cast.sample.kind m)).map fun info =>
      { module := m, info, stage
        kit := ⟨0, Cast.sample.name m, Cast.sample.kind m, ⟨m⟩, token, 1, 0⟩ }
  listeners := []
  runtime := 0
  request := 1
  crew := 0
  launched

/-- After a launch that succeeds the main task waits for a moment, records who is active, and stores the
ensemble. -/
def Program.launched : Except LaunchFailure LaunchSummary × Ensemble → Program .bare Outcome
  | (.ok report, e) => .perform (.sleep 1) fun _ =>
    .perform (.record ⟨.info, Origin.orchestrator, "launched", report.active.map (.plain "module")⟩)
      fun _ => .perform (.keep "sample" e) fun _ => .done (.ok ())
  | (.error _, _) => .perform .hang nofun

/-- An ensemble that has been built is stored and launched, and shut down before if need be. -/
def Program.built (early : Bool) : Except LaunchFailure Ensemble → Program .bare Outcome
  | .ok e => .perform (.keep "sample" e) fun _ =>
    if early then
      e.shutdown .sample "sample" >>= fun r => r.2.launch .sample "sample" >>= Program.launched
    else e.launch .sample "sample" >>= Program.launched
  | .error _ => .perform .hang nofun

/-- The main task builds an ensemble and launches it; it may shut it down before. -/
def Machine.Execution.building (early : Bool) : Execution World.bare :=
  .directed World.bare 1 (Blueprint.required.build .sample 0 >>= Program.built early) ()
    (List.replicate 120 (.step 0))

/-- What an ensemble that is being built does not ask for, but whoever stores it does. -/
def Op.isUnbuilt : Op A → Bool
  | .keep .. | .hang => true
  | _ => false

/-- What a launch does not ask for, but whoever waits after it does. -/
def Op.isUnlaunched : Op A → Bool
  | .sleep _ | .hang => true
  | _ => false

theorem Op.Builds.not_isUnbuilt {op : Op A} (h : op.Builds) : op.isUnbuilt = false := by
  unfold Builds at h
  split at h <;> first | rfl | exact h.elim

theorem Op.Launches.not_isUnlaunched {op : Op A} (h : op.Launches) : op.isUnlaunched = false := by
  unfold Launches at h
  split at h <;> first | rfl | exact h.elim

namespace Machine.Execution

/-- The ensemble has been built after 22 steps. -/
theorem building_built (early : Bool) : ∃ tr, (building early).Returns 0 []
    (Blueprint.required.build .sample 0) (Program.built early) 1 22 tr
      (.ok (.required .unstarted false)) := by
  have hnext : ∀ r, ∃ op rest, Program.built early r = .perform op rest ∧ op.isUnbuilt = true := by
    intro r
    cases r with
    | ok e => exact ⟨_, _, rfl, rfl⟩
    | error f => exact ⟨_, _, rfl, rfl⟩
  have hwithin : ∀ n, n ≤ 22 → 1 ≤ n →
      (((building early).state n).core 0).any (Core.isWithin 0) = true := by
    cases early <;> decide +kernel
  have hfirst : ∀ m, m < 22 → 1 ≤ m →
      (((building early).state m).core 0).any (Core.asks Op.isUnbuilt 0) = false := by
    cases early <;> decide +kernel
  have hend : ((building early).state 22).core 0
      = some ⟨.running (Program.built early (.ok (.required .unstarted false))), [], []⟩ := by
    cases early <;> rfl
  obtain ⟨tr, r, hreturns, hsame⟩ := returns_of
    (Blueprint.build_builds.mono fun _ h => h.not_isUnbuilt) hnext (uncut_of_isWithin hwithin)
    (by decide) rfl hend hfirst
  cases r with
  | ok e =>
    obtain ⟨hkeep, -⟩ := Program.perform.inj hsame
    obtain ⟨-, rfl⟩ := Op.keep.inj hkeep
    exact ⟨tr, hreturns⟩
  | error f => cases hsame

set_option maxRecDepth 4000 in
/-- The launch has succeeded after 118 steps. -/
theorem building_launched : ∃ tr report e, (building false).Returns 0 []
    ((Ensemble.required .unstarted false).launch .sample "sample") Program.launched 23 118 tr
      (.ok report, e) := by
  have hnext : ∀ r, ∃ op rest, Program.launched r = .perform op rest ∧ op.isUnlaunched = true := by
    intro r
    obtain ⟨r, e⟩ := r
    cases r with
    | ok report => exact ⟨_, _, rfl, rfl⟩
    | error f => exact ⟨_, _, rfl, rfl⟩
  have hwithin : ∀ n, n ≤ 118 → 23 ≤ n →
      (((building false).state n).core 0).any (Core.isWithin 0) = true := by
    decide +kernel
  have hfirst : ∀ m, m < 118 → 23 ≤ m →
      (((building false).state m).core 0).any (Core.asks Op.isUnlaunched 0) = false := by
    decide +kernel
  have hend : ((building false).state 118).core 0 = some ⟨.running (Program.launched
      (.ok ⟨["credentials", "console", "gateway"], []⟩, .required .postLaunched true)), [], []⟩ := rfl
  obtain ⟨tr, ⟨r, e⟩, hreturns, hsame⟩ := returns_of
    (Ensemble.launch_launches.mono fun _ h => h.not_isUnlaunched) hnext (uncut_of_isWithin hwithin)
    (by decide) rfl hend hfirst
  cases r with
  | ok report => exact ⟨tr, report, e, hreturns⟩
  | error f => cases hsame

/-- Whether a step takes somebody off a bus. -/
def removes {w : World A} (x : Execution w) (b : BusId) (n : Nat) : Bool :=
  match x.edit b n with
  | some (.remove _) => true
  | _ => false

/-- Nobody disconnects anybody, if the ensemble is not shut down. -/
theorem building_not_disconnects {m : Nat} (hm : m < 118) :
    ¬ (building false).Disconnects (.required .unstarted false) m := by
  have hedits : ∀ m, m < 118 → (building false).removes 0 m = false := by decide +kernel
  have htokens : ∀ m, m < 119 → ((building false).state m).tokens.all (fun k => !k.cancelled) = true := by
    decide +kernel
  intro hdisconnects
  cases hdisconnects with
  | removes _ hedit =>
    have hnot := hedits m hm
    have hedit : (building false).edit 0 m = some (.remove _) := hedit
    rw [removes, hedit] at hnot
    cases hnot
  | @cancels token _ _ _ hafter =>
    rw [State.isCancelled_of_all (htokens (m + 1) (Nat.succ_lt_succ hm))] at hafter
    cases hafter

end Machine.Execution

/-- Without a shutdown before it the launch leaves its modules connected. -/
theorem launch_connects_building : ∃ (report : LaunchSummary) (e : Ensemble),
    report.active = Ensemble.activeNames .sample e.slots ∧
      ∀ s ∈ e.slots, (Execution.building false).Connected 0 s 118 := by
  obtain ⟨tr, hbuild⟩ := Execution.building_built false
  obtain ⟨tr', report, e, hlaunch⟩ := Execution.building_launched
  exact ⟨report, e, launch_connects (Execution.building false) Execution.directed_isProper .sample "sample"
    Blueprint.required 0 (Program.built false) 0 [] 1 22 tr (.required .unstarted false) hbuild [] _ .start
    Program.launched 0 [] 23 118 tr' report e (by decide) hlaunch
    fun m _ hm hdisconnects => absurd hdisconnects (Execution.building_not_disconnects hm)⟩

set_option maxRecDepth 4000 in
/-- **A launch after a shutdown succeeds and leaves no module connected**, though no hook, listener or worker
does anything at all: all modules are reported as active, none of them is registered any longer, and all of
their tokens have been cancelled. -/
theorem launch_after_shutdown :
    (∀ callee, World.bare.body callee = .done (.ok ())) ∧
    ((Execution.building true).state 22).core 0
      = some ⟨.running (Program.built true (.ok (.required .unstarted false))), [], []⟩ ∧
    ((Execution.building true).state 39).core 0 = some ⟨.running
      ((Ensemble.required .unstarted false).launch .sample "sample" >>= Program.launched), [], []⟩ ∧
    ((Execution.building true).state 110).core 0 = some ⟨.running (Program.launched
      (.ok ⟨["credentials", "console", "gateway"], []⟩, .required .postLaunched true)), [], []⟩ ∧
    ∀ s ∈ (Ensemble.required .postLaunched true).slots, s.active = true ∧
      s.module ∉ (Execution.building true).listeners 0 110 ∧
      ((Execution.building true).state 110).isCancelled s.kit.token = true := by
  refine ⟨fun callee => rfl, rfl, rfl, rfl, ?_⟩
  decide +kernel

end Orchestra
