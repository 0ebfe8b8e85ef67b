import Orchestra.Proofs.Announcing
import Orchestra.Proofs.Connection
import Orchestra.Proofs.Shutdown
import Orchestra.Proofs.Signals

/-!
# Serving releases the modules

Whoever serves launches an ensemble, waits for a signal or a request to end, and shuts the ensemble down.  A
fatal failure of the launch ends the process before anything has been initialized, any other failure is
followed by the same shutdown as a launch that succeeds, and a request to end counts whenever it is made.  A signal
that comes before the process is told of signals ends it, and once the wait has begun it is told of all.

* `Ensemble.serve_asks` — on the way a wait for the end is asked for only after a launch that has succeeded, a wait
  for the request alone only where the process cannot be told of signals, and an end of the process only after a
  launch that has failed fatally;
* `Ensemble.FailsFatally` — only assertions have been called by then;
* `Wait.AwaitsRequest`, `State.advance_of_requested` — a wait for the end is over once the request has been made;
* `ServeCourse.dismisses` — whatever has come of the launch, everybody is dismissed;
* `Execution.Releases`, `Through.releases` — what that leaves behind;
* `serve_releases` — serving never leaves an initialized module behind;
* `serving_leaves_modules` — but a signal that comes during the launch does, and a module that somebody registers
  again during the shutdown is on the bus.
-/

namespace Orchestra

variable {A : Application} {cast : Cast} {name : String} {e : Ensemble}

/-! ### Fatal failures -/

section

variable {passed rest slots : List Slot} {faults : List Fault} {ds : List Deed} {P : Progress}
  {f : LaunchFailure} {p : Phase}

theorem AssertionCourse.aborted_eq (h : AssertionCourse cast passed rest ds P)
    (hf : P.aborted = some f) : ∃ m source, f = .assertionFailed m source := by
  induction h with
  | done passed => cases hf
  | failed passed rest s source => exact ⟨_, source, (Option.some.inj hf).symm⟩
  | held _ ih => exact ih hf

theorem PhaseCourse.aborted_eq (h : PhaseCourse cast p passed faults rest ds P)
    (hf : P.aborted = some f) : ∃ m source, f = .sequenceAborted m p source := by
  induction h with
  | done passed faults => cases hf
  | absent _ _ ih => exact ih hf
  | ran _ _ ih => exact ih hf
  | aborted passed rest faults source _ _ _ => exact ⟨_, source, (Option.some.inj hf).symm⟩
  | leftOut source _ _ _ _ ih => exact ih hf
  | noted source _ _ _ ih => exact ih hf

theorem SequenceCourse.aborted_eq {ps : List Phase} (h : SequenceCourse cast slots faults ps ds P)
    (hf : P.aborted = some f) : ∃ m p source, f = .sequenceAborted m p source := by
  induction h with
  | done slots faults => cases hf
  | aborted hphase _ =>
    obtain ⟨m, source, rfl⟩ := hphase.aborted_eq hf
    exact ⟨m, _, source, rfl⟩
  | next _ _ _ ih => exact ih hf

end

/-- Through the exchanges a launch fails fatally: it is the first one, an assertion has failed or a required
kind of module is missing, and nothing but assertions has been called. -/
structure Ensemble.FailsFatally (cast : Cast) (name : String) (e : Ensemble) (tr : List (Exchange A))
    (f : LaunchFailure) : Prop where
  run : ∃ e₁, Program.Run (e.launch cast name) tr (.error f, e₁)
  cause : (∃ module source, f = .assertionFailed module source) ∨
    ∃ kind title, f = .missingMandatory kind title
  first : e.launched = false
  calls : ∀ callee ∈ calleesOf (deeds tr), ∃ m kit, callee = .hook m .assertion kit

/-- **A failure that ends the process leaves nothing behind**: nothing but assertions has been called. -/
theorem Ensemble.failsFatally {tr : List (Exchange A)} {f : LaunchFailure} {e₁ : Ensemble}
    (h : Program.Run (e.launch cast name) tr (.error f, e₁)) (hf : f.endsProcess = true) :
    e.FailsFatally cast name tr f := by
  have hassertions : ∀ {ds : List Deed} {P : Progress}, AssertionCourse cast [] e.slots ds P →
      ∀ callee ∈ calleesOf (.stored e.slots :: ds), ∃ m kit, callee = .hook m .assertion kit := by
    intro ds P hassert callee hcallee
    obtain ⟨s, -, rfl⟩ := List.mem_map.1 (hassert.callees_sublist.mem hcallee)
    exact ⟨s.module, s.kit, rfl⟩
  have hcourse := launch_course h
  generalize hds : deeds tr = ds, hr : (Except.error f, e₁) = r at hcourse
  cases hcourse with
  | repeated _ =>
    obtain rfl := Except.error.inj (Prod.mk.inj hr).1
    cases hf
  | asserted hfirst hassert haborted =>
    obtain rfl := Except.error.inj (Prod.mk.inj hr).1
    exact ⟨⟨e₁, h⟩, .inl (hassert.aborted_eq haborted), hfirst, hds ▸ hassertions hassert⟩
  | missing hfirst hassert _ _ =>
    obtain rfl := Except.error.inj (Prod.mk.inj hr).1
    exact ⟨⟨e₁, h⟩, .inr ⟨_, _, rfl⟩, hfirst, hds ▸ hassertions hassert⟩
  | aborted _ _ _ _ _ hsequence haborted =>
    obtain rfl := Except.error.inj (Prod.mk.inj hr).1
    obtain ⟨m, p, source, rfl⟩ := hsequence.aborted_eq haborted
    cases hf
  | completed _ _ _ _ _ _ _ => cases (Prod.mk.inj hr).1

/-! ### What is asked on the way -/

/-- An operation that neither lets time pass, nor waits for a token or the end of the process, nor ends it. -/
def Op.GoesOn : Op A → Prop
  | .sleep _ | .hang | .awaitCancel _ | .awaitCancelFor .. | .awaitTermination _ | .exit .. => False
  | _ => True

section

variable {op : Op A}

theorem Op.Launches.goesOn (h : op.Launches) : op.GoesOn := by
  unfold Launches at h
  split at h <;> trivial

theorem Op.Dismisses.goesOn (h : op.Dismisses) : op.GoesOn := by
  unfold Dismisses at h
  split at h <;> trivial

end

namespace Ensemble

theorem shutdown_goesOn : (e.shutdown (A := A) cast name).Only Op.GoesOn :=
  shutdown_only (fun _ h => h.launches.goesOn) (fun _ h => h.launches.goesOn) fun _ h => h.goesOn

/-- A launch that must succeed asks for an end of the process if it fails fatally. -/
theorem mustLaunch_asks {tr : List (Exchange A)} {op : Op A}
    (h : (e.mustLaunch cast name).Asks tr op) : op.GoesOn ∨
      ∃ f, e.FailsFatally cast name tr f ∧ op = .exit 1 ("fatal: " ++ f.message ++ "\n") := by
  rw [mustLaunch] at h
  rcases Program.asks_bind h with hlaunch | ⟨launched, ⟨result, e₁⟩, later, rfl, hrun, hafter⟩
  · exact .inl (hlaunch.of_only launch_launches).goesOn
  rcases result with f | report
  · by_cases hfatal : f.endsProcess = true
    · simp only [hfatal, if_true] at hafter
      rcases Program.asks_bind hafter with ⟨rest, hexit⟩ | ⟨_, x, _, -, -, -⟩
      · cases hexit with
        | start => exact .inr ⟨f, by rw [List.append_nil]; exact failsFatally hrun hfatal, rfl⟩
        | perform x _ => exact x.elim
      · exact x.elim
    · simp only [hfatal] at hafter
      obtain ⟨rest, hnone⟩ := hafter
      cases hnone
  · obtain ⟨rest, hnone⟩ := hafter
    cases hnone

/-- Whoever waits for the end waits for termination first, and for a request alone only where the process cannot be
told of signals. -/
theorem awaitEnd_asks {request : TokenId} {tr : List (Exchange A)} {op : Op A}
    (h : (awaitEnd request).Asks tr op) : op.GoesOn ∨ op = .awaitTermination request ∧ tr = [] ∨
      op = .awaitCancel request ∧ ∃ error record,
        tr = [⟨.awaitTermination request, .unavailable error⟩, ⟨.record record, ()⟩] := by
  obtain ⟨rest, hleads⟩ := h
  cases hleads with
  | start => exact .inr (.inl ⟨rfl, rfl⟩)
  | perform cause hleads =>
    cases cause with
    | unavailable error =>
      cases hleads with
      | start => exact .inl trivial
      | perform _ hleads =>
        cases hleads with
        | start => exact .inr (.inr ⟨rfl, error, _, rfl⟩)
        | perform _ hnone => cases hnone
    | _ => cases hleads

/-- **What is asked for while serving**: an end of the process only after a launch that has failed fatally, a wait
for the end only after one that has succeeded, and a wait for the request alone only after that if the process cannot
be told of signals. -/
theorem serve_asks {tr : List (Exchange A)} {op : Op A} (h : (e.serve cast name).Asks tr op) :
    op.GoesOn ∨ (∃ f, e.FailsFatally cast name tr f ∧ op = .exit 1 ("fatal: " ++ f.message ++ "\n")) ∨
      ∃ report e₁ launched waited, Program.Run (e.launch cast name) launched (.ok report, e₁) ∧
        tr = launched ++ waited ∧ (op = .awaitTermination e.request ∧ waited = [] ∨
          op = .awaitCancel e.request ∧ ∃ error record, waited =
            [⟨.awaitTermination e.request, .unavailable error⟩, ⟨.record record, ()⟩]) := by
  have hrecord : ∀ r : Record, (Program.ask (A := A) (.record r)).Only Op.GoesOn :=
    fun _ => Program.only_ask trivial
  rw [serve] at h
  rcases Program.asks_bind h with hmust | ⟨launched, ⟨result, e₁⟩, later, rfl, hmust, hafter⟩
  · rcases mustLaunch_asks hmust with hgoes | hfatal
    · exact .inl hgoes
    · exact .inr (.inl hfatal)
  rcases result with f | report
  · refine .inl (hafter.of_only ?_)
    refine Program.only_bind (hrecord _) fun _ => ?_
    exact Program.only_bind shutdown_goesOn fun c => Program.only_pure _
  · rcases Program.asks_bind hafter with hwait | ⟨first, cause, later, rfl, -, hlater⟩
    · have hlaunch := (mustLaunch_run hmust).1
      have hsame : e₁ = { e with launched := true, slots := e₁.slots } := (launch_course hlaunch).eq_with
      have hrequest : e₁.request = e.request := by rw [hsame]
      rw [hrequest] at hwait
      rcases awaitEnd_asks hwait with hgoes | hwaits
      · exact .inl hgoes
      · exact .inr (.inr ⟨report, e₁, launched, later, hlaunch, rfl, hwaits⟩)
    · refine .inl (hlater.of_only ?_)
      refine Program.only_bind (hrecord _) fun _ => ?_
      refine Program.only_bind ((Bus.publish_publishes ..).mono fun _ h => h.launches.goesOn) fun _ => ?_
      exact Program.only_bind shutdown_goesOn fun c => Program.only_pure _

end Ensemble

/-! ### Requests to end -/

open Machine

variable {w : World A}

/-- A wait that a request ends, by itself or as well as a signal. -/
inductive Machine.Wait.AwaitsRequest (request : TokenId) : Wait A → Prop where
  | orSignal (next : Termination → Program A Outcome) : AwaitsRequest request (.termination request none next)
  | alone (next : Program A Outcome) : AwaitsRequest request (.cancelled request next)

namespace Machine.State

variable {s s' : State A} {t : TaskId} {request : TokenId} {wait : Wait A} {calls : Calls A} {passes : List Pass}

/-- A wait for the end is over once the request has been made, whenever that was. -/
theorem advance_of_requested (hwait : wait.AwaitsRequest request)
    (h : s.core t = some ⟨.waiting wait, calls, passes⟩) (hrequest : s.isCancelled request = true) :
    (s.advance w t).isSome := by
  refine ready_of_proceed h fun wait' hbare => ?_
  cases hwait with
  | orSignal next =>
    cases wait' with
    | termination request' signal next' =>
      cases hbare
      cases signal with
      | some g =>
        rw [proceed]
        split <;> rfl
      | none =>
        rw [proceed, if_pos hrequest]
        rfl
    | _ => cases hbare
  | alone next =>
    cases wait' with
    | cancelled request' next' =>
      cases hbare
      rw [proceed, if_pos hrequest]
      rfl
    | _ => cases hbare

/-- With the next step of the task it is over. -/
theorem goesOn_of_awaitsRequest {k : Core A} (hwait : wait.AwaitsRequest request)
    (h : s.core t = some ⟨.waiting wait, calls, passes⟩) (hadvance : s.advance w t = some s')
    (hk : s'.core t = some k) (hended : k.doing ≠ .ended) (hdepth : calls.length ≤ k.calls.length) :
    ∃ p, wait.MayGoOn p ∧ k = ⟨.running p, calls, passes⟩ := by
  have hbare : wait.bare = wait := by cases hwait <;> rfl
  have hclaim : wait.claim? t = none := by cases hwait <;> rfl
  obtain ⟨wait', hsame, hproceed, -⟩ := proceed_of_advance hadvance hk hended hdepth h
  have hclaim' : wait'.claim? t = none := by
    cases wait' <;> first | rfl | (cases hsame; cases hclaim)
  obtain ⟨p, hp, rfl⟩ := resumes_of_proceed hclaim' hproceed
  rw [hsame] at hp
  rw [resume, core_setStatus h] at hk
  exact ⟨p, hp, (Option.some.inj hk).symm⟩

end Machine.State

/-! ### What a shutdown leaves behind -/

/-- Among the exchanges the runtime token of an ensemble is cancelled, and each of its modules and listeners
is taken off its bus. -/
structure Ensemble.DismissedIn (e : Ensemble) (tr : List (Exchange A)) : Prop where
  cancels : ⟨.cancel e.runtime, ()⟩ ∈ tr
  removes : ∀ l ∈ e.modules ++ e.listeners, ∃ changed, ⟨.edit e.bus (.remove l), changed⟩ ∈ tr

section

variable {tr : List (Exchange A)}

/-- Whoever takes listeners off a bus asks for each of them. -/
theorem Ensemble.unregisterAll_asked {bus : BusId} {ls : List ListenerId}
    (h : Program.Run (unregisterAll cast bus ls) tr ()) :
    ∀ l ∈ ls, ∃ changed, ⟨.edit bus (.remove l), changed⟩ ∈ tr := by
  induction ls generalizing tr with
  | nil => exact nofun
  | cons l rest ih =>
    rw [unregisterAll] at h
    obtain ⟨first, _, later, rfl, hfirst, hrest⟩ := Program.run_bind_iff.1 h
    intro l' hl'
    rcases List.mem_cons.1 hl' with rfl | hmem
    · obtain ⟨changed, _, rfl, -⟩ := Program.run_ask_bind_iff.1 hfirst
      exact ⟨changed, List.mem_append_left _ List.mem_cons_self⟩
    · obtain ⟨changed, hasked⟩ := ih hrest l' hmem
      exact ⟨changed, List.mem_append_right _ hasked⟩

/-- Whoever has left has asked for each module and each listener to be taken off the bus. -/
theorem Ensemble.leave_asked {failures : List Fault} {stuck : List String}
    {r : ShutdownSummary × Ensemble} (h : Program.Run (leave cast e failures stuck) tr r) :
    ∀ l ∈ e.modules ++ e.listeners, ∃ changed, ⟨.edit e.bus (.remove l), changed⟩ ∈ tr := by
  obtain ⟨first, ⟨⟩, _, rfl, hfirst, hlater⟩ := Program.run_bind_iff.1 h
  obtain ⟨rest, ⟨⟩, _, rfl, hrest, -⟩ := Program.run_bind_iff.1 hlater
  intro l hl
  rcases List.mem_append.1 hl with hmodule | hlistener
  · obtain ⟨changed, hmem⟩ := unregisterAll_asked hfirst l hmodule
    exact ⟨changed, List.mem_append_left _ hmem⟩
  · obtain ⟨changed, hmem⟩ := unregisterAll_asked hrest l hlistener
    exact ⟨changed, List.mem_append_right _ (List.mem_append_left _ hmem)⟩

/-- **A shutdown dismisses everybody**, and nobody is due after it. -/
theorem Ensemble.shutdown_dismisses {c : ShutdownSummary × Ensemble}
    (h : Program.Run (e.shutdown cast name) tr c) :
    e.DismissedIn tr ∧ (∀ s ∈ c.2.slots, s.isDue = false) ∧ c.2.modules = e.modules := by
  obtain ⟨hooks, c', announced, _, rfl, -, hclose, -, hdismiss⟩ := shutdown_parts h
  obtain ⟨stuck', rfl⟩ := dismiss_run hdismiss
  obtain ⟨⟨⟩, _, rfl, hdissolve⟩ := Program.run_ask_bind_iff.1 hdismiss
  obtain ⟨waited, stuck, left, rfl, -, hleave⟩ := Program.run_bind_iff.1 hdissolve
  have hstopping := closeSlots_course hclose
  have hmodules : ({ e with slots := c'.slots } : Ensemble).modules = e.modules := by
    rw [modules, modules, hstopping.slots_eq, List.map_map]
    exact List.map_congr_left fun s _ => s.stopped_module
  refine ⟨⟨by simp, fun l hl => ?_⟩, hstopping.forall_not_isDue, hmodules⟩
  rw [← hmodules] at hl
  obtain ⟨changed, hmem⟩ := leave_asked hleave l hl
  exact ⟨changed, by simp [hmem]⟩

/-- **Serving dismisses everybody**, whatever has come of the launch, and nobody is due after it. -/
theorem ServeCourse.dismisses {cause : Option Termination}
    {r : Except LaunchFailure ShutdownSummary × Ensemble} (h : ServeCourse cast name e tr cause r) :
    e.DismissedIn tr ∧ (∀ s ∈ r.2.slots, s.isDue = false) ∧ r.2.modules = e.modules := by
  obtain ⟨launched, ⟨_, e₁⟩, waited, closed, c, rfl, hlaunch, -, hclose, hsame⟩ := h.parts
  have hcourse := Ensemble.launch_course hlaunch
  have hmodules : e₁.modules = e.modules := map_module_of_owner hcourse.owners
  have he₁ : e₁ = { e with launched := true, slots := e₁.slots } := hcourse.eq_with
  have hbus : e₁.bus = e.bus := by rw [he₁]
  have hruntime : e₁.runtime = e.runtime := by rw [he₁]
  have hlisteners : e₁.listeners = e.listeners := by rw [he₁]
  obtain ⟨⟨hcancels, hremoves⟩, hidle, hstopped⟩ := Ensemble.shutdown_dismisses hclose
  rw [hmodules, hlisteners, hbus] at hremoves
  rw [hruntime] at hcancels
  rw [hsame]
  refine ⟨⟨by simp [hcancels], fun l hl => ?_⟩, hidle, hstopped.trans hmodules⟩
  obtain ⟨changed, hmem⟩ := hremoves l hl
  exact ⟨changed, by simp [hmem]⟩

end

namespace Machine.Execution

variable {x : Execution w} {t : TaskId} {calls : Calls A} {tr : List (Exchange A)} {i n m : Nat}

/-- Since the moment `n` the runtime token of an ensemble is cancelled, and each of its modules and listeners
has been taken off its bus, not before `i`, and is back only if somebody has added it since. -/
structure Releases (x : Execution w) (e : Ensemble) (i n : Nat) : Prop where
  cancelled : ∀ m, n ≤ m → (x.state m).isCancelled e.runtime = true
  removed : ∀ l ∈ e.modules ++ e.listeners, ∃ m, i ≤ m ∧ m < n ∧ x.edit e.bus m = some (.remove l) ∧
    ∀ k, n ≤ k → l ∈ x.listeners e.bus k → ∃ m', m < m' ∧ m' < k ∧ x.edit e.bus m' = some (.add l)

/-- Whoever is answered a cancellation has cancelled the token. -/
theorem Answers.cancelled {token : TokenId} (h : x.Answers t calls ⟨.cancel token, ()⟩ m n)
    (htoken : token < (x.state n).tokens.length) : (x.state (n + 1)).isCancelled token = true := by
  obtain ⟨-, next, passes, -, hstate, -⟩ := h.at_once (fun _ _ => id) fun _ _ _ => id
  rw [hstate]
  exact State.isCancelled_cancel_self htoken

/-- Whoever is taken off a bus is back only if he has been added since. -/
theorem exists_added_of_removed {b : BusId} {l : ListenerId} {k : Nat}
    (hremoved : x.edit b m = some (.remove l)) (hmk : m < k) (hmem : l ∈ x.listeners b k) :
    ∃ m', m < m' ∧ m' < k ∧ x.edit b m' = some (.add l) := by
  have hgone : l ∉ x.listeners b (m + 1) := by
    rw [mem_listeners_succ, hremoved]
    rintro (hadd | ⟨-, hstays⟩)
    · cases hadd
    · exact hstays rfl
  by_contra hnone
  refine not_mem_mono hmk hgone (fun m' hm' hk hadd => ?_) hmem
  exact hnone ⟨m', hm', hk, hadd⟩

/-- **Whoever has dismissed everybody has released the ensemble.** -/
theorem Through.releases (hx : x.IsProper) (h : x.Through t calls tr i n) (hdismissed : e.DismissedIn tr)
    (hthere : e.runtime < (x.state i).tokens.length) : x.Releases e i n := by
  refine ⟨fun k hk => ?_, fun l hl => ?_⟩
  · obtain ⟨m, m', hm, hm', hanswers⟩ := h.answers hdismissed.cancels
    have hle := hanswers.le
    have hthere' := Nat.lt_of_lt_of_le hthere (hx.length_mono (Nat.le_trans hm hle))
    exact hx.isCancelled_mono (by omega) (hanswers.cancelled hthere')
  · obtain ⟨changed, hasked⟩ := hdismissed.removes l hl
    obtain ⟨m, m', hm, hm', hanswers⟩ := h.answers hasked
    refine ⟨m', Nat.le_trans hm hanswers.le, hm', hanswers.edit_eq, fun k hk hmem => ?_⟩
    exact exists_added_of_removed hanswers.edit_eq (Nat.lt_of_lt_of_le hm' hk) hmem

section

variable {next : Except LaunchFailure ShutdownSummary × Ensemble → Program A Outcome} {passes : List Pass}

/-- Whoever serves and is about to end the process has launched the ensemble, and that has failed fatally. -/
theorem Amid.failsFatally (h : x.Amid t calls (e.serve cast name) next i m) {status : Nat}
    {complaint : String} {rest : Empty → Program A Outcome}
    (hcore : (x.state m).core t
      = some ⟨.running (.perform (.exit status complaint) rest), calls, passes⟩) :
    ∃ tr f m', x.Through t calls tr i m' ∧ m' ≤ m ∧ e.FailsFatally cast name tr f ∧
      status = 1 ∧ complaint = "fatal: " ++ f.message ++ "\n" := by
  obtain ⟨tr, op, m', hasks, hthrough, hm', hserves⟩ := h.asks hcore rfl
  obtain rfl : .exit status complaint = op := hserves
  rcases Ensemble.serve_asks hasks with
    hgoes | ⟨f, hfatal, hexit⟩ | ⟨_, _, _, _, -, -, ⟨hwait, -⟩ | ⟨hwait, -⟩⟩
  · exact hgoes.elim
  · obtain ⟨hstatus, hcomplaint⟩ := Op.exit.inj hexit
    exact ⟨tr, f, m', hthrough, hm', hfatal, hstatus, hcomplaint⟩
  · cases hwait
  · cases hwait

/-- Whoever serves and waits for a request waits for that of the ensemble. -/
theorem Amid.awaitsRequest (h : x.Amid t calls (e.serve cast name) next i m) {request : TokenId} {wait : Wait A}
    (hwait : wait.AwaitsRequest request) (hcore : (x.state m).core t = some ⟨.waiting wait, calls, passes⟩) :
    request = e.request := by
  obtain ⟨tr, op, m', hasks, -, -, next', hwaits⟩ := h.asks hcore rfl
  cases hwait with
  | orSignal rest =>
    obtain rfl := hwaits.eq_asked rfl
    rcases Ensemble.serve_asks hasks with hgoes | ⟨f, -, hexit⟩ | ⟨_, _, _, _, -, -, ⟨heq, -⟩ | ⟨heq, -⟩⟩
    · exact hgoes.elim
    · cases hexit
    · exact Op.awaitTermination.inj heq
    · cases heq
  | alone rest =>
    obtain rfl := hwaits.eq_asked rfl
    rcases Ensemble.serve_asks hasks with hgoes | ⟨f, -, hexit⟩ | ⟨_, _, _, _, -, -, ⟨heq, -⟩ | ⟨heq, -⟩⟩
    · exact hgoes.elim
    · cases hexit
    · cases heq
    · exact Op.awaitCancel.inj heq

end

/-- The wait for the end is over without a signal only if the request has been made, and without handlers only if
the process could not be told of some signal. -/
theorem Through.requested (hx : x.IsProper) {cause : Termination}
    {r : Except LaunchFailure ShutdownSummary × Ensemble}
    (hcourse : ServeCourse cast name e tr (some cause) r) (h : x.Through t calls tr i n) :
    ((∀ g, cause ≠ .signal g) → (x.state n).isCancelled e.request = true) ∧
      ∀ error, cause = .unavailable error → ∃ k g, i ≤ k ∧ k < n ∧ (x.state k).refused.lookup g = some error := by
  cases hcourse with
  | @ended launched waited told closed _ _ _ _ _ record _ hwait _ _ =>
    have hasked : ∀ y ∈ waited, ∃ m k, i ≤ m ∧ k < n ∧ x.Answers t calls y m k := fun y hy =>
      h.answers (List.mem_append_right _ (List.mem_append_left _ hy))
    have htermination : ⟨.awaitTermination e.request, cause⟩ ∈ waited := by
      rcases Ensemble.awaitEnd_run hwait with ⟨rfl, -⟩ | ⟨_, _, -, rfl⟩ <;> exact List.mem_cons_self
    obtain ⟨m, k, him, hkn, hanswers⟩ := hasked _ htermination
    obtain ⟨hrequested, hrefused⟩ := hanswers.tells
    refine ⟨fun hno => ?_, fun error herror => ?_⟩
    · rcases Ensemble.awaitEnd_run hwait with ⟨-, hheard⟩ | ⟨_, error, -, rfl⟩
      · have hcause : cause = .requested := by
          cases cause with
          | requested => rfl
          | signal g => exact absurd rfl (hno g)
          | unavailable error => exact absurd rfl (hheard error)
        exact hx.isCancelled_mono (Nat.le_of_lt hkn) (hrequested hcause)
      · obtain ⟨_, k', -, hkn', hwaited⟩ := hasked ⟨.awaitCancel e.request, ()⟩ (by simp)
        exact hx.isCancelled_mono (Nat.le_of_lt hkn') hwaited.tells
    · obtain ⟨g, hg⟩ := hrefused error herror
      exact ⟨k, g, Nat.le_trans him hanswers.le, hkn, hg⟩

end Machine.Execution

/-! ### The main result -/

/-- **Serving never leaves an initialized module behind**, unless the process comes to its end on the way.  Whoever
serves ends the process only after a fatal failure of the first launch, when nothing but assertions has ever been
called; apart from that it ends by what others ask for, or by a signal that it is not told of, and once the wait for
the end has begun it is told of all of them.  A request to end is not lost, whenever it was made, and whether or not
the process can be told of signals.  When serving returns, an error is the launch's, and a shutdown has been announced
exactly if there is none, after the launch and before the shutdown hooks; either way no module is left that is
initialized and not shut down, the runtime token has been cancelled, and whoever belongs to the ensemble has been taken
off the bus and is back only if somebody has registered it since. -/
theorem serve_releases (x : Execution w) (hx : x.IsProper) (hminds : x.MindsSignals) (cast : Cast)
    (name : String) (e : Ensemble)
    (next : Except LaunchFailure ShutdownSummary × Ensemble → Program A Outcome) (t : TaskId)
    (calls : Calls A) (passes : List Pass) (i j : Nat) (hij : i ≤ j)
    (hthere : e.runtime < (x.state i).tokens.length) (huncut : x.Uncut t calls.length i j)
    (hk : (x.state i).core t = some ⟨.running (e.serve cast name >>= next), calls, passes⟩) :
    (∀ m, m ≤ j → x.Amid t calls (e.serve cast name) next i m →
      -- Whoever serves ends the process only after a fatal failure,
      (∀ status complaint rest passes', (x.state m).core t
          = some ⟨.running (.perform (.exit status complaint) rest), calls, passes'⟩ →
        ∃ tr f m', x.Through t calls tr i m' ∧ m' ≤ m ∧ e.FailsFatally cast name tr f ∧
          status = 1 ∧ complaint = "fatal: " ++ f.message ++ "\n" ∧
          ∀ (e₀ : Ensemble) (T : List (Request × List (Exchange A))), e₀.Untouched →
            Story cast name e₀ T e → deeds (exchanges T) = []) ∧
      -- and apart from what tasks ask for, only a signal ends it that it is not told of;
      (∀ exit, (x.state i).exited = none → (x.state m).exited = some exit →
        ∃ n, i ≤ n ∧ n < m ∧ x.IsEnded n exit) ∧
      -- while the wait for the end lasts, and ever after, it is told of all signals,
      (∀ request rest passes', (x.state m).core t
          = some ⟨.waiting (.termination request none rest), calls, passes'⟩ →
        ∀ k, m ≤ k → ∀ g, g ∈ (x.state k).handled) ∧
      -- and no wait for the end goes on once a request has been made.
      (∀ request wait passes', wait.AwaitsRequest request →
        (x.state m).core t = some ⟨.waiting wait, calls, passes'⟩ → request = e.request ∧
        ∀ k, k ≤ m → (x.state k).isCancelled e.request = true → ((x.state m).advance w t).isSome ∧
          (m < j → x.turn m = some t → ∃ p, wait.MayGoOn p ∧
            (x.state (m + 1)).core t = some ⟨.running p, calls, passes'⟩))) ∧
    -- It is still on its way,
    ((∀ m, i ≤ m → m ≤ j → x.Amid t calls (e.serve cast name) next i m) ∨
    -- or it has come to its end.
    ∃ n tr cause r, n ≤ j ∧ x.Returns t calls (e.serve cast name) next i n tr r ∧
      ServeCourse cast name e tr cause r ∧
      (∀ c, cause = some c → ((∀ g, c ≠ .signal g) → (x.state n).isCancelled e.request = true) ∧
        ∀ error, c = .unavailable error →
          ∃ k g, i ≤ k ∧ k < n ∧ (x.state k).refused.lookup g = some error) ∧
      (∃ before after, Announced cast e.bus tr
          (before ++ (cause.map fun c => Event.shutdownRequested c.reason).toList ++ after) ∧
        ∀ event ∈ before ++ after, event.IsOfPhase) ∧
      x.Releases e i n ∧ (∀ s ∈ r.2.slots, s.isDue = false) ∧ r.2.modules = e.modules) := by
  refine ⟨fun m hm hamid => ⟨?_, ?_, ?_, ?_⟩, ?_⟩
  · intro status complaint rest passes' hcore
    obtain ⟨tr, f, m', hthrough, hm', hfatal, hstatus, hcomplaint⟩ := hamid.failsFatally hcore
    exact ⟨tr, f, m', hthrough, hm', hfatal, hstatus, hcomplaint, fun e₀ T huntouched hstory =>
      (hstory.of_unlaunched huntouched hfatal.first).2⟩
  · exact fun exit hlives hended => hminds.isEnded hamid.le hlives hended
  · intro request rest passes' hcore k hmk g
    obtain ⟨m', next', hm', hawaits⟩ := hamid.awaits hcore rfl
    exact hawaits.told hminds hm' (Nat.lt_of_lt_of_le hm' hmk) g
  · intro request wait passes' hwait hcore
    obtain rfl := hamid.awaitsRequest hwait hcore
    refine ⟨rfl, fun k hkm hcancelled => ⟨?_, fun hmj hturn => ?_⟩⟩
    · exact State.advance_of_requested hwait hcore (hx.isCancelled_mono hkm hcancelled)
    · obtain ⟨k', hk', hended, hdepth⟩ := huncut (m + 1) (Nat.le_succ_of_le hamid.le) hmj
      obtain ⟨p, hp, rfl⟩ := State.goesOn_of_awaitsRequest hwait hcore (Execution.advance_of_turn hturn) hk'
        hended hdepth
      exact ⟨p, hp, hk'⟩
  · rcases Execution.followed huncut hij hk with hamid | ⟨n, tr, r, hn, hreturns⟩
    · exact .inl hamid
    · obtain ⟨cause, hcourse⟩ := Ensemble.serve_course hreturns.run
      obtain ⟨hdismissed, hidle, hmodules⟩ := hcourse.dismisses
      refine .inr ⟨n, tr, cause, r, hn, hreturns, hcourse, ?_, hcourse.announced,
        hreturns.through.releases hx hdismissed hthere, hidle, hmodules⟩
      rintro c rfl
      exact hreturns.through.requested hx hcourse

/-! ### What may be left behind -/

/-- A world in which nobody does anything, and whoever has a job registers the first module. -/
def World.insistent : World .bare where
  cast := .sample
  body _ := .done (.ok ())
  job _ := do
    let _ ← Bus.register .sample 0 0
    return .ok ()

/-- After serving the main task waits for a moment, records how many failures there were, and stores the
ensemble. -/
def Program.served : Except LaunchFailure ShutdownSummary × Ensemble → Program .bare Outcome
  | (.ok report, e) => .perform (.sleep 1) fun _ =>
    .perform (.record ⟨.info, Origin.orchestrator, "served",
      [.number "failures" report.failures.length, .number "stuck" report.stuckWorkers.length]⟩)
      fun _ => .perform (.keep "sample" e) fun _ => .done (.ok ())
  | (.error _, _) => .perform .hang nofun

/-- Once an ensemble has been built, a task is started, the request to end is made, and the ensemble is
served. -/
def Program.insistent : Except LaunchFailure Ensemble → Program .bare Outcome
  | .ok e => .perform (.spawn "returning" ()) fun _ => .perform (.cancel e.request) fun _ =>
    e.serve .sample "sample" >>= Program.served
  | .error _ => .perform .hang nofun

/-- The main task takes its steps until it has taken the first module off the bus, the other task registers
that module, and the main task takes the rest of its steps. -/
def Machine.Execution.insistent : Execution World.insistent :=
  .directed World.insistent 1 (Blueprint.required.build .sample 0 >>= Program.insistent) ()
    (List.replicate 159 (.step 0) ++ List.replicate 3 (.step 1) ++ List.replicate 10 (.step 0))

set_option maxRecDepth 4000 in
/-- Serving ends after 173 steps, and releases the ensemble. -/
theorem serve_releases_insistent : ∃ tr cause report e',
    Execution.insistent.Returns 0 [] ((Ensemble.required .unstarted false).serve .sample "sample")
      Program.served 24 173 tr (.ok report, e') ∧
    ServeCourse .sample "sample" (.required .unstarted false) tr cause (.ok report, e') ∧
    Execution.insistent.Releases (.required .unstarted false) 24 173 ∧ ∀ s ∈ e'.slots, s.isDue = false := by
  have hwithin : ∀ n, n ≤ 173 → 24 ≤ n →
      ((Execution.insistent.state n).core 0).any (Core.isWithin 0) = true := by
    decide +kernel
  have hfirst : ∀ m, m < 173 → 24 ≤ m →
      ((Execution.insistent.state m).core 0).any (Core.asks Op.isUnlaunched 0) = false := by
    decide +kernel
  have hthere : 0 < (Execution.insistent.state 24).tokens.length := by decide +kernel
  have hend : (Execution.insistent.state 173).core 0 = some ⟨.running
      (Program.served (.ok ⟨[], []⟩, .required .shutdown true)), [], []⟩ := rfl
  obtain ⟨-, hamid | ⟨n, tr, cause, ⟨r, e'⟩, hn, hreturns, hcourse, -, -, hreleases, hidle, -⟩⟩ :=
    serve_releases Execution.insistent Execution.directed_isProper Execution.directed_mindsSignals .sample "sample"
      (.required .unstarted false) Program.served 0 [] [] 24 173 (by decide) hthere
      (Execution.uncut_of_isWithin hwithin) rfl
  · -- What the main task asks for at the end is not asked for while serving.
    obtain ⟨_, op, _, hasks, -, -, hserves⟩ := (hamid 173 (by decide) (Nat.le_refl _)).asks hend rfl
    obtain rfl : .sleep 1 = op := hserves
    rcases Ensemble.serve_asks hasks with hgoes | ⟨f, -, hexit⟩ | ⟨_, _, _, _, -, -, ⟨hwait, -⟩ | ⟨hwait, -⟩⟩
    · exact hgoes.elim
    · cases hexit
    · cases hwait
    · cases hwait
  · obtain ⟨passes, hafter⟩ := hreturns.after
    obtain rfl : n = 173 := by
      by_contra hne
      have hnot := hfirst n (by omega) hreturns.through.le
      rw [hafter] at hnot
      cases r <;> cases hnot
    cases r with
    | ok report => exact ⟨tr, cause, report, e', hreturns, hcourse, hreleases, hidle⟩
    | error f => cases hafter.symm.trans hend

/-- The main task takes its steps until the launch has initialized everybody, and a signal comes. -/
def Machine.Execution.interrupted : Execution World.insistent :=
  .directed World.insistent 1 (Blueprint.required.build .sample 0 >>= Program.insistent) ()
    (List.replicate 43 (.step 0) ++ [.signal .terminate])

set_option maxRecDepth 4000 in
/-- **Serving may leave modules behind.**  A signal that comes during the launch, before the process is told of
signals, ends it with every module initialized.  And a module may be on the bus when serving returns: nobody does
anything but to register the first module during the shutdown, when it has just been taken off the bus; serving
returns with success, and the module is registered. -/
theorem serving_leaves_modules :
    ((Execution.interrupted.state 24).core 0 = some ⟨.running
      ((Ensemble.required .unstarted false).serve .sample "sample" >>= Program.served), [], []⟩ ∧
    Execution.interrupted.turn 44 = none ∧ (Execution.interrupted.state 44).exited = none ∧
    (Execution.interrupted.state 45).exited = some (.killed .terminate) ∧
    (Execution.interrupted.state 45).ensembles.lookup "sample" = some (.required .initialized true) ∧
    ∀ s ∈ (Ensemble.required .initialized true).slots, s.isDue = true) ∧
    (∀ callee, World.insistent.body callee = .done (.ok ())) ∧
    (Execution.insistent.state 24).core 0 = some ⟨.running
      ((Ensemble.required .unstarted false).serve .sample "sample" >>= Program.served), [], []⟩ ∧
    (Execution.insistent.state 173).core 0 = some ⟨.running
      (Program.served (.ok ⟨[], []⟩, .required .shutdown true)), [], []⟩ ∧
    0 ∈ (Ensemble.required .shutdown true).modules ∧ 0 ∈ Execution.insistent.listeners 0 173 := by
  refine ⟨⟨rfl, by decide +kernel, rfl, rfl, rfl, by decide⟩, fun callee => rfl, rfl, rfl, ?_⟩
  decide +kernel

end Orchestra
