import Orchestra.Proofs.Connection
import Orchestra.Proofs.Deadlines

/-!
# Building registers everything or nothing

Whatever is added to a blueprint, and however often: if the modules can be ordered, building registers them in
starting order and then the listeners in the order in which they were added, everybody once; otherwise it
touches nothing.

* `Addition`, `Blueprint.assembled` — what is done with a blueprint before it is built;
* `foldl_addOnce_eq` — adding one after another keeps each at its first place;
* `Blueprint.build_changes` — the changes that building asks for;
* `Ensemble.MadeOf` — an ensemble has one fresh slot for each module that was added, in starting order;
* `Blueprint.Settles` — what building comes to, and who is registered then;
* `Execution.changes_end` — a program whose operations are all answered returns;
* `Makes.settles`, `Makes.settles_so_far` — who is registered when building has returned, and before;
* `build_all_or_nothing` — what is registered while an ensemble is being built, and afterwards.
-/

namespace Orchestra

variable {A : Application}

/-! ### Adding one after another -/

theorem eraseDups_of_nodup {xs : List ListenerId} (h : xs.Nodup) : xs.eraseDups = xs := by
  induction xs with
  | nil => rfl
  | cons x rest ih =>
    obtain ⟨hx, hrest⟩ := List.nodup_cons.1 h
    have hfilter : rest.filter (fun y => !y == x) = rest := by
      refine List.filter_eq_self.2 fun y hy => ?_
      have hne : y ≠ x := fun heq => hx (heq ▸ hy)
      simp [hne]
    rw [List.eraseDups_cons, hfilter, ih hrest]

/-- One after another is added that is not there yet: each stays at its first place. -/
theorem foldl_addOnce_eq (xs : List ListenerId) {ys : List ListenerId} (h : ys.Nodup) :
    xs.foldl addOnce ys = (ys ++ xs).eraseDups := by
  induction xs generalizing ys with
  | nil => rw [List.append_nil, eraseDups_of_nodup h, List.foldl_nil]
  | cons x rest ih =>
    rw [List.foldl_cons, ih (nodup_addOnce h x), addOnce]
    split
    · next hx =>
      have hremove : (x :: rest).removeAll ys = rest.removeAll ys := by
        simp [List.removeAll, hx]
      rw [List.eraseDups_append, List.eraseDups_append, hremove]
    · rw [List.append_assoc, List.singleton_append]

theorem nodup_eraseDups (xs : List ListenerId) : xs.eraseDups.Nodup := by
  have hfold := nodup_foldl_addOnce xs List.nodup_nil
  rwa [foldl_addOnce_eq xs List.nodup_nil] at hfold

theorem foldl_apply_add (xs ys : List ListenerId) :
    (xs.map Edit.add).foldl (fun set e => e.apply set) ys = xs.foldl addOnce ys := by
  rw [List.foldl_map]
  rfl

/-! ### Blueprints -/

/-- Something that is done with a blueprint before it is built. -/
inductive Addition where
  | modules (ms : List ListenerId)
  | listeners (ls : List ListenerId)
  /-- The types of modules are others from then on. -/
  | types (catalogue : TypeCatalogue)

/-- The modules of an addition. -/
def Addition.newModules : Addition → List ListenerId
  | modules ms => ms
  | _ => []

/-- The listeners of an addition. -/
def Addition.newListeners : Addition → List ListenerId
  | listeners ls => ls
  | _ => []

namespace Blueprint

/-- A blueprint after an addition. -/
def add (a : Blueprint) : Addition → Blueprint
  | .modules ms => a.addModules ms
  | .listeners ls => a.addListeners ls
  | .types catalogue => { a with types := catalogue }

/-- A blueprint to which something has been added, one after another. -/
def assembled (config : Config) (additions : List Addition) : Blueprint :=
  additions.foldl add { config }

theorem foldl_add_parts (additions : List Addition) (a : Blueprint) :
    (additions.foldl add a).modules = (additions.flatMap Addition.newModules).foldl addOnce a.modules ∧
      (additions.foldl add a).listeners
        = (additions.flatMap Addition.newListeners).foldl addOnce a.listeners := by
  induction additions generalizing a with
  | nil => exact ⟨rfl, rfl⟩
  | cons addition rest ih =>
    obtain ⟨hmodules, hlisteners⟩ := ih (a.add addition)
    rw [List.flatMap_cons, List.flatMap_cons, List.foldl_append, List.foldl_append]
    cases addition <;> exact ⟨hmodules, hlisteners⟩

/-- Each module and each listener is in a blueprint once, in the order in which they were added. -/
theorem assembled_parts (config : Config) (additions : List Addition) :
    (assembled config additions).modules = (additions.flatMap Addition.newModules).eraseDups ∧
      (assembled config additions).listeners = (additions.flatMap Addition.newListeners).eraseDups := by
  obtain ⟨hmodules, hlisteners⟩ := foldl_add_parts additions { config }
  exact ⟨hmodules.trans (foldl_addOnce_eq _ List.nodup_nil),
    hlisteners.trans (foldl_addOnce_eq _ List.nodup_nil)⟩

end Blueprint

/-! ### What building asks for -/

section

variable {cast : Cast} {bus : BusId} {a : Blueprint} {tr : List (Exchange A)}

theorem Bus.register_changes {l : ListenerId} {changed : Bool}
    (h : Program.Run (register cast bus l) tr changed) : changesTo bus tr = [.add l] := by
  obtain ⟨answer, _, rfl, hrecord⟩ := Program.run_ask_bind_iff.1 h
  have hadded : (⟨.edit bus (.add l), answer⟩ : Exchange A).changeTo bus = some (.add l) := if_pos rfl
  rw [changesTo_cons, hadded]
  cases answer with
  | true =>
    obtain ⟨_, _, rfl, hend⟩ := Program.run_ask_bind_iff.1 hrecord
    obtain ⟨rfl, -⟩ := Program.run_pure_iff.1 hend
    rfl
  | false =>
    obtain ⟨rfl, -⟩ := Program.run_pure_iff.1 hrecord
    rfl

namespace Blueprint

theorem fillSlots_changes {types : TypeCatalogue} {runtime request : TokenId} {crew : CrewId}
    {modules : List ListenerId} {slots slots' : List Slot}
    (h : Program.Run (fillSlots cast bus types runtime request crew modules slots) tr (.ok slots')) :
    changesTo bus tr = modules.map .add := by
  induction modules generalizing slots tr with
  | nil =>
    obtain ⟨rfl, -⟩ := Program.run_pure_iff.1 h
    rfl
  | cons m rest ih =>
    rw [fillSlots] at h
    split at h
    · cases (Program.run_pure_iff.1 h).2
    obtain ⟨token, _, rfl, hregister⟩ := Program.run_ask_bind_iff.1 h
    obtain ⟨_, changed, _, rfl, hregistered, hrecord⟩ := Program.run_bind_iff.1 hregister
    obtain ⟨_, _, rfl, hrest⟩ := Program.run_ask_bind_iff.1 hrecord
    rw [changesTo_cons, changesTo_append, changesTo_cons, Bus.register_changes hregistered, ih hrest]
    rfl

theorem registerAll_changes {ls : List ListenerId} (h : Program.Run (registerAll cast bus ls) tr ()) :
    changesTo bus tr = ls.map .add := by
  induction ls generalizing tr with
  | nil =>
    obtain ⟨rfl, -⟩ := Program.run_pure_iff.1 h
    rfl
  | cons l rest ih =>
    obtain ⟨_, changed, _, rfl, hregistered, hrest⟩ := Program.run_bind_iff.1 h
    rw [changesTo_append, Bus.register_changes hregistered, ih hrest]
    rfl

/-- **If the modules can be ordered, building succeeds**: no kind is unknown any more when its module is
about to be registered.  It registers the modules in order, and then the listeners. -/
theorem build_changes {modules : List ListenerId} {r : Except LaunchFailure Ensemble}
    (hordered : a.ordered cast = .ok modules) (h : Program.Run (a.build cast bus) tr r) :
    (∃ e, r = .ok e) ∧ changesTo bus tr = (modules ++ a.listeners).map .add := by
  unfold build at h
  rw [hordered] at h
  obtain ⟨runtime, _, rfl, hrequest⟩ := Program.run_ask_bind_iff.1 h
  obtain ⟨request, _, rfl, hcrew⟩ := Program.run_ask_bind_iff.1 hrequest
  obtain ⟨crew, _, rfl, hslots⟩ := Program.run_ask_bind_iff.1 hcrew
  obtain ⟨_, filled, _, rfl, hfill, hregister⟩ := Program.run_bind_iff.1 hslots
  cases filled with
  | error refusal =>
    obtain ⟨m, hm, hnone⟩ := fillSlots_error hfill
    obtain ⟨-, hknown, -⟩ := ordered_ok hordered
    obtain ⟨info, hinfo⟩ := hknown m hm
    cases hinfo.symm.trans hnone
  | ok slots =>
    obtain ⟨_, _, _, rfl, hregistered, hreturn⟩ := Program.run_bind_iff.1 hregister
    obtain ⟨rfl, hr⟩ := Program.run_pure_iff.1 hreturn
    refine ⟨⟨_, hr⟩, ?_⟩
    rw [changesTo_cons, changesTo_cons, changesTo_cons, changesTo_append, changesTo_append,
      fillSlots_changes hfill, registerAll_changes hregistered, List.map_append]
    exact congrArg (modules.map Edit.add ++ ·) (List.append_nil _)

/-- Building asks for nothing if the modules cannot be ordered. -/
theorem build_of_error {refusal : Refusal} (h : a.ordered cast = .error refusal) :
    a.build (A := A) cast bus = .done (.error (.ordering refusal)) := by
  rw [build, h]
  rfl

end Blueprint

end

/-! ### What becomes of the bus -/

theorem Op.Builds.callsNobody {op : Op A} (h : op.Builds) : op.CallsNobody := by
  cases op with
  | call callee limit => exact h.elim
  | _ => trivial

theorem Op.Builds.nonempty {op : Op A} (h : op.Builds) : Nonempty op.Answer := by
  unfold Builds at h
  split at h
  · exact ⟨(0 : TokenId)⟩
  · exact ⟨(0 : CrewId)⟩
  · exact ⟨true⟩
  · exact ⟨()⟩
  · exact h.elim

/-- Nothing but a change is waited for. -/
theorem Op.Builds.isPrompt_or_edit {op : Op A} (h : op.Builds) :
    op.IsPrompt ∨ ∃ b e, op = .edit b e := by
  unfold Builds at h
  split at h
  · exact .inl ⟨trivial, fun _ _ hwait => hwait⟩
  · exact .inl ⟨trivial, fun _ _ hwait => hwait⟩
  · exact .inr ⟨_, _, rfl⟩
  · exact .inl ⟨trivial, fun _ _ hwait => hwait⟩
  · exact h.elim

/-- An ensemble is made of distinct modules, in an order of their positions, and of listeners: it has one
fresh slot for each of the modules, with the entry of the module's own kind. -/
structure Ensemble.MadeOf (cast : Cast) (catalogue : TypeCatalogue) (modules listeners : List ListenerId)
    (positions : List Nat) (e : Ensemble) : Prop where
  types : e.types = catalogue
  order : e.modules = positions.filterMap fun p => modules[p]?
  perm : e.modules.Perm modules
  nodup : e.modules.Nodup
  listeners : e.listeners = listeners
  fresh : ∀ s ∈ e.slots, catalogue.find? (cast.kind s.module) = some s.info ∧ s.stage = .unstarted ∧
    s.active = true

/-- What building comes to, and who is registered then after those that were. -/
def Blueprint.Settles (cast : Cast) (types : TypeCatalogue) (modules listeners before after : List ListenerId) :
    Except LaunchFailure Ensemble → Prop
  -- The modules have no order, and nobody is registered.
  | .error failure => after = before ∧
      ∃ refusal, startOrder (modules.map cast.kind) types = .error refusal ∧ failure = .ordering refusal
  -- The modules and then the listeners are registered.
  | .ok e => after = (before ++ e.modules ++ e.listeners).eraseDups ∧
      ∃ positions, startOrder (modules.map cast.kind) types = .ok positions ∧
        e.MadeOf cast types modules listeners positions

namespace Machine.Execution

variable {w : World A} {x : Execution w} {b : BusId} {t : TaskId} {calls : Calls A} {passes : List Pass}
  {i j : Nat} {α : Type}

/-- **A program whose operations are all answered returns**, and has changed what its exchanges have. -/
theorem changes_end {Q : Op A → Prop} {p : Program A α} {next : α → Program A Outcome} (hp : p.Only Q)
    (hcalls : ∀ op, Q op → op.CallsNobody) (hattends : x.Attends t)
    (hanswered : ∀ op, Q op → ∀ nxt m, ¬ ∀ n, m ≤ n → x.Awaits t calls op nxt m n)
    (huncut : ∀ n, x.Uncut t calls.length i n) (halone : ∀ n, x.Alone b t i n)
    (hk : (x.state i).core t = some ⟨.running (p >>= next), calls, passes⟩) :
    ∃ n tr a passes', p.Run tr a ∧ x.Makes b (changesTo b tr) i n ∧
      (x.state n).core t = some ⟨.running (next a), calls, passes'⟩ := by
  induction p generalizing i passes with
  | done a => exact ⟨i, [], a, passes, .done a, .refl i, hk⟩
  | perform op rest ih =>
    obtain ⟨hop, hrest⟩ := hp
    obtain ⟨m, k', hacts⟩ := hattends.acts huncut hk
    have hover : ∃ n answer passes', x.Answers t calls ⟨op, answer⟩ m n ∧ (x.state (n + 1)).core t
        = some ⟨.running ((rest answer).bind next), calls, passes'⟩ := by
      by_contra hnever
      refine hanswered op hop (fun answer => (rest answer).bind next) m fun n hn => ?_
      rcases hacts.asked.followed hn ((huncut n).tail hacts.le) with
        hawaits | ⟨n', answer, passes', -, -, hafter⟩
      · exact hawaits
      · exact absurd ⟨n', answer, passes', hafter⟩ hnever
    obtain ⟨n, answer, passes', hanswers, hafter⟩ := hover
    have hbefore := hacts.rests.makes ((halone m).mono (Nat.le_refl i) (Nat.le_refl m)) hacts.le
    have hmade := hbefore.trans (hanswers.makes (hcalls op hop) ((halone n).mono hacts.le (Nat.le_refl n)))
    obtain ⟨n', tr, a, passes'', hrun, hmakes, hend⟩ := ih answer (hrest answer)
      (fun n' => (huncut n').tail hmade.le) (fun n' => (halone n').mono hmade.le (Nat.le_refl n')) hafter
    refine ⟨n', ⟨op, answer⟩ :: tr, a, passes'', .perform answer hrun, ?_, hend⟩
    rw [changesTo_cons]
    exact hmade.trans hmakes

/-- Who is registered after some registrations. -/
theorem Makes.registered {ls : List ListenerId} (h : x.Makes b (ls.map .add) i j) :
    x.listeners b j = (x.listeners b i ++ ls).eraseDups := by
  rw [h.listeners, foldl_apply_add, foldl_addOnce_eq ls (x.nodup b i)]

/-- What is registered when building has returned. -/
theorem Makes.settles {cast : Cast} {a : Blueprint} {tr : List (Exchange A)}
    {r : Except LaunchFailure Ensemble} (h : x.Makes b (changesTo b tr) i j)
    (hrun : Program.Run (a.build cast b) tr r) (hdistinct : a.modules.Nodup) :
    Blueprint.Settles cast a.types a.modules a.listeners (x.listeners b i) (x.listeners b j) r := by
  cases hstart : startOrder (a.modules.map cast.kind) a.types with
  | error refusal =>
    have hordered : a.ordered cast = .error refusal := by
      rw [Blueprint.ordered, hstart]
    rw [Blueprint.build_of_error hordered] at hrun
    obtain ⟨rfl, rfl⟩ := Program.run_done_iff.1 hrun
    exact ⟨h.listeners, refusal, hstart, rfl⟩
  | ok positions =>
    have hordered : a.ordered cast = .ok (positions.filterMap fun p => a.modules[p]?) := by
      rw [Blueprint.ordered, hstart]
    obtain ⟨⟨e, rfl⟩, hchanges⟩ := Blueprint.build_changes hordered hrun
    obtain ⟨order, horder, hslots, hinfo, hextra, htypes, -, hfresh⟩ := Blueprint.build_run hrun
    obtain rfl := Except.ok.inj (hordered.symm.trans horder)
    have hperm : e.modules.Perm a.modules := hslots ▸ (Blueprint.ordered_ok hordered).1
    rw [hchanges] at h
    refine ⟨?_, positions, hstart, htypes, hslots, hperm, hperm.symm.nodup hdistinct, hextra,
      fun s hs => ⟨(hinfo s hs).1, hfresh s hs⟩⟩
    rw [h.registered, hslots, hextra, List.append_assoc]

/-- Who is registered while building goes on. -/
theorem Makes.settles_so_far {cast : Cast} {a : Blueprint} {tr : List (Exchange A)} {op : Op A}
    (h : x.Makes b (changesTo b tr) i j) (hasks : (a.build cast b).Asks tr op) :
    ∃ positions k, startOrder (a.modules.map cast.kind) a.types = .ok positions ∧ x.listeners b j
      = (x.listeners b i ++ ((positions.filterMap fun p => a.modules[p]?) ++ a.listeners).take k).eraseDups := by
  cases hstart : startOrder (a.modules.map cast.kind) a.types with
  | error refusal =>
    have hordered : a.ordered cast = .error refusal := by
      rw [Blueprint.ordered, hstart]
    rw [Blueprint.build_of_error hordered] at hasks
    obtain ⟨rest, hleads⟩ := hasks
    cases hleads
  | ok positions =>
    have hordered : a.ordered cast = .ok (positions.filterMap fun p => a.modules[p]?) := by
      rw [Blueprint.ordered, hstart]
    -- What has been asked for so far is a part of what is asked for in the end.
    obtain ⟨tr', r, hrun⟩ := hasks.extends (Blueprint.build_builds.mono fun _ => Op.Builds.nonempty)
    obtain ⟨-, hchanges⟩ := Blueprint.build_changes hordered hrun
    rw [changesTo_append] at hchanges
    have hinitial := List.prefix_iff_eq_take.1 ⟨_, hchanges⟩
    rw [← List.map_take] at hinitial
    rw [hinitial] at h
    exact ⟨positions, (changesTo b tr).length, rfl, h.registered⟩

end Machine.Execution

/-! ### The main result -/

open Machine

variable {w : World A}

/-- **Building registers everything or nothing.** -/
theorem build_all_or_nothing (x : Execution w) (cast : Cast) (b : BusId)
    -- Whatever has been added to a blueprint, in whatever order and however often,
    (config : Config) (additions : List Addition)
    -- let a task build it.
    (next : Except LaunchFailure Ensemble → Program A Outcome) (t : TaskId) (calls : Calls A)
    (passes : List Pass) (i : Nat)
    (hk : (x.state i).core t = some
      ⟨.running ((Blueprint.assembled config additions).build cast b >>= next), calls, passes⟩) :
    let types := (Blueprint.assembled config additions).types
    let modules := (additions.flatMap Addition.newModules).eraseDups
    let listeners := (additions.flatMap Addition.newListeners).eraseDups
    -- As long as it is not cut off and nobody else changes the bus,
    (∀ j, i ≤ j → x.Uncut t calls.length i j → x.Alone b t i j →
      -- it is being built: the modules have an order, and some of them are registered so far,
      (x.Amid t calls ((Blueprint.assembled config additions).build cast b) next i j ∧
        ∃ positions k, startOrder (modules.map cast.kind) types = .ok positions ∧
          x.listeners b j = (x.listeners b i
            ++ ((positions.filterMap fun p => modules[p]?) ++ listeners).take k).eraseDups) ∨
      -- or building has returned, with everybody registered, or nobody.
      ∃ n r passes', i ≤ n ∧ n ≤ j ∧ (x.state n).core t = some ⟨.running (next r), calls, passes'⟩ ∧
        (x.listeners b n).Nodup ∧
        Blueprint.Settles cast types modules listeners (x.listeners b i) (x.listeners b n) r) ∧
    -- It returns if no change is waited for for ever.
    (x.Attends t → (∀ n, x.Uncut t calls.length i n) → (∀ n, x.Alone b t i n) →
      (∀ b' e nxt m, ¬ ∀ n, m ≤ n → x.Awaits t calls (.edit b' e) nxt m n) →
      ∃ n r passes', i ≤ n ∧ (x.state n).core t = some ⟨.running (next r), calls, passes'⟩ ∧
        (x.listeners b n).Nodup ∧
        Blueprint.Settles cast types modules listeners (x.listeners b i) (x.listeners b n) r) := by
  intro types modules listeners
  obtain ⟨hmodules, hlisteners⟩ := Blueprint.assembled_parts config additions
  have hdistinct : (Blueprint.assembled config additions).modules.Nodup := hmodules ▸ nodup_eraseDups _
  have hbuilds : ((Blueprint.assembled config additions).build (A := A) cast b).Only Op.Builds :=
    Blueprint.build_builds
  simp only [modules, listeners, ← hmodules, ← hlisteners]
  refine ⟨fun j hij huncut halone => ?_, fun hattends huncut halone hgranted => ?_⟩
  · rcases Execution.changes_followed (hbuilds.mono fun _ => Op.Builds.callsNobody) huncut hij halone hk with
      ⟨hamid, tr, op, hasks, hmakes⟩ | ⟨n, tr, r, passes', hn, hrun, hmakes, hend⟩
    · exact .inl ⟨hamid, hmakes.settles_so_far hasks⟩
    · exact .inr ⟨n, r, passes', hmakes.le, hn, hend, x.nodup b n, hmakes.settles hrun hdistinct⟩
  · have hanswered : ∀ op : Op A, op.Builds → ∀ nxt m, ¬ ∀ n, m ≤ n → x.Awaits t calls op nxt m n := by
      intro op hop nxt m
      rcases hop.isPrompt_or_edit with hprompt | ⟨b', e, rfl⟩
      · exact Execution.answer_comes hattends hop.callsNobody (.inl hprompt)
      · exact hgranted b' e nxt m
    obtain ⟨n, tr, r, passes', hrun, hmakes, hend⟩ := Execution.changes_end hbuilds
      (fun _ => Op.Builds.callsNobody) hattends hanswered huncut halone hk
    exact ⟨n, r, passes', hmakes.le, hend, x.nodup b n, hmakes.settles hrun hdistinct⟩

/-- Modules and listeners, some of them added twice, and one of them both as a module and as a listener. -/
def Addition.sample : List Addition :=
  [.modules [4, 1], .listeners [9, 4], .modules [0, 4], .listeners [9]]

/-- A module is registered, and then the main task builds an ensemble with it. -/
def Machine.Execution.crowded : Execution World.bare :=
  .directed World.bare 1 (Bus.register .sample 0 0 >>= fun _ =>
    (Blueprint.assembled {} Addition.sample).build .sample 0 >>= fun _ => .perform .hang nofun) ()
    (List.replicate 32 (.step 0))

set_option maxRecDepth 4000 in
/-- Everybody is registered once, behind the module that was there before. -/
theorem build_all_or_nothing_crowded : ∃ (n : Nat) (e : Ensemble), 5 ≤ n ∧
    Execution.crowded.listeners 0 n = [0, 1, 4, 9] ∧ e.modules = [0, 1, 4] ∧
      e.MadeOf .sample .core [4, 1, 0] [9, 4] [2, 1, 0] := by
  have hclock : (Execution.crowded.state 33).tick = none := rfl
  have hwithin : ∀ n, n ≤ 33 → 5 ≤ n →
      ((Execution.crowded.state n).core 0).any (Core.isWithin 0) = true := by decide +kernel
  have hturns : ∀ m, m < 33 → 5 ≤ m → Execution.crowded.turn m = some 0 := by decide +kernel
  have halone : ∀ n, Execution.crowded.Alone 0 0 5 n := by
    intro n m hm _ hturn
    cases hedit : Execution.crowded.edit 0 m with
    | none => rfl
    | some e =>
      obtain ⟨u, k, k', hu, -⟩ := Execution.edit_eq_some hedit
      rcases Nat.lt_or_ge m 33 with hlt | hge
      · exact absurd (hturns m hlt hm) hturn
      · cases hu.symm.trans (Execution.directed_turn hge)
  have hgranted : ∀ b e nxt m, ¬ ∀ n, m ≤ n → Execution.crowded.Awaits 0 [] (.edit b e) nxt m n := by
    intro b e nxt m hforever
    -- In the end the main task waits for something else.
    have hlater : m < max (m + 1) 33 := Nat.le_max_left _ _
    obtain ⟨wait, passes, hwait, hcore⟩ := (hforever _ (Nat.le_of_lt hlater)).waits trivial hlater
    have hrest := Execution.directed_rest hclock (Nat.le_max_right (m + 1) 33)
    cases (congrArg (State.core · 0) hrest).symm.trans hcore
    rcases hwait with heq | ⟨copy, heq⟩ <;> cases heq
  obtain ⟨n, r, passes, hn, -, -, hsettles⟩ := (build_all_or_nothing Execution.crowded .sample 0 {}
    Addition.sample (fun _ => .perform .hang nofun) 0 [] [] 5 rfl).2
    (Execution.directed_attends hclock rfl rfl rfl)
    (fun n => Execution.directed_uncut hclock hwithin (by decide) n) halone hgranted
  have horder : startOrder ([4, 1, 0].map Cast.sample.kind) .core = .ok [2, 1, 0] := by decide
  cases r with
  | error failure =>
    obtain ⟨-, refusal, hrefusal, -⟩ := hsettles
    cases horder.symm.trans hrefusal
  | ok e =>
    obtain ⟨hlisteners, positions, hpositions, hmade⟩ := hsettles
    obtain rfl := Except.ok.inj (horder.symm.trans hpositions)
    refine ⟨n, e, hn, ?_, hmade.order, hmade⟩
    rw [hlisteners, hmade.order, hmade.listeners]
    rfl

end Orchestra
