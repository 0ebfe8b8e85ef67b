import Orchestra.Machine.State

/-!
# One step of one task

`State.advance` lets one task take one step, if it can: it performs the next operation of a running
program, goes on with a waiting one whose wait is over, or gives up a call whose limit has been
reached.

* `State.operate` — the effect of one operation;
* `State.proceed` — how a wait ends;
* `Task.expired` — the innermost call whose limit has been reached.  It is looked for only when the
  task cannot go on otherwise, so work that is due at the same moment as its limit wins;
* `State.leave` — the way out of a call, by its end, a panic or its limit: pending claims and
  deliveries inside the call are given back, innermost first, before the caller goes on;
* `State.finish` — the end of a task.

Nothing here depends on the order in which tasks take their steps.
-/

namespace Orchestra.Machine

variable {A : Application}

/-- The claim behind a wait. -/
def Wait.claim? (t : TaskId) : Wait A → Option (BusId × Claim)
  | beginning bus _ | reading bus _ => some (bus, ⟨t, .read⟩)
  | editing bus _ _ | replacing bus _ _ _ => some (bus, ⟨t, .write⟩)
  | _ => none

/-- The innermost call whose limit has been reached, with the calls around it. -/
def expired (now : Nat) : List (Frame A) → Option (Frame A × Duration × List (Frame A))
  | [] => none
  | f :: rest => match f.guard with
    | none => expired now rest
    | some g => if g.due ≤ now then some (f, g.limit, rest) else expired now rest

namespace State

/-- Takes back the claim of a task that waits for one. -/
def dropClaim (t : TaskId) (s : State A) : State A :=
  match (s.tasks[t]?).bind Task.wait? with
  | none => s
  | some (w, _) => match w.claim? t with
    | none => s
    | some (bus, c) => s.onLock bus fun l => l.withdraw c

/-- Ends the deliveries of a task beyond the outermost `depth`, innermost first. -/
def endPasses (t : TaskId) (depth : Nat) (s : State A) : State A :=
  match s.tasks[t]? with
  | none => s
  | some k =>
    let surplus := k.passes.length - depth
    let s := s.onTask t fun k => { k with passes := k.passes.drop surplus }
    (k.passes.take surplus).foldl (fun s p => s.onLock p.bus fun l => l.release ⟨t, .read⟩) s

/-- Leaves a call and everything inside it; the caller goes on with the outcome. -/
def leave (t : TaskId) (f : Frame A) (rest : List (Frame A)) (o : Outcome) (s : State A) :
    State A :=
  let s := (s.dropClaim t).endPasses t f.depth
  s.onTask t fun k => { k with frames := rest, status := .running (f.caller o) }

/-- Takes a worker out of its crew: it is no longer running, and then no longer counted. -/
def discharge (crew : CrewId) (number : Nat) (name : String) (s : State A) : State A :=
  let s := s.onCrew crew fun c => c.dismiss number
  let s := s.log ⟨.debug, Origin.workers, "worker finished", [.shown "worker" name]⟩
  let s := s.onCrew crew CrewState.uncount
  match s.crews[crew]? with
  | some c => if c.isDone then s.wakeAll (s.waitingFor (awaitsCrew crew)) else s
  | none => s

/-- Ends a task. -/
def finish (t : TaskId) (e : Ending) (s : State A) : State A :=
  match s.tasks[t]? with
  | none => s
  | some k =>
    let s := (s.dropClaim t).endPasses t 0
    let s := s.onTask t fun k => { k with frames := [], status := .ended e }
    let s := match k.role with
      | .worker crew number name => s.discharge crew number name
      | _ => s
    s.wakeAll (s.waitingFor (awaitsEnd t))

/-- Waits. -/
def await (t : TaskId) (w : Wait A) (s : State A) : State A :=
  s.setStatus t (.waiting w none)

/-- The end of a wait, if it is over. -/
def proceed (t : TaskId) (s : State A) : Wait A → Option (State A)
  | .beginning bus next =>
    if s.claimWaits bus t then none
    else
      let set := s.listenersOf bus
      let s := s.onTask t fun k => { k with passes := ⟨bus, set⟩ :: k.passes }
      some (s.resume t (next set))
  | .reading bus next =>
    if s.claimWaits bus t then none
    else
      let set := s.listenersOf bus
      some ((s.resume t (next set)).onLock bus fun l => l.release ⟨t, .read⟩)
  | .editing bus edit next =>
    if s.claimWaits bus t then none
    else some (s.await t (.replacing bus edit (s.listenersOf bus) next))
  | .replacing bus edit copy next =>
    let s := (s.setListeners bus (edit.apply copy)).resume t (next (edit.changes copy))
    some (s.onLock bus fun l => l.release ⟨t, .write⟩)
  | .sleeping due next => if due ≤ s.now then some (s.resume t next) else none
  | .cancelled token next => if s.isCancelled token then some (s.resume t next) else none
  | .cancelledBy token due next =>
    if s.isCancelled token then some (s.resume t (next true))
    else if due ≤ s.now then some (s.resume t (next false))
    else none
  | .joining task next =>
    match (s.tasks[task]?).map Task.status with
    | some (.ended e) => some (s.resume t (next (some e)))
    | _ => none
  | .crew crew due next =>
    if ((s.crews[crew]?).map CrewState.isDone).getD true then some (s.resume t (next true))
    else if due ≤ s.now then some (s.resume t (next false))
    else none
  | .termination request signal next =>
    match signal with
    | some g =>
      if s.requestFirst && s.isCancelled request then some (s.resume t (next .requested))
      else some (s.resume t (next (.signal g)))
    | none =>
      if s.isCancelled request then some (s.resume t (next .requested)) else none
  | .forever => none

/-- Calls a body. -/
def enter (w : World A) (t : TaskId) (callee : Callee) (limit : Option Duration)
    (caller : Outcome → Program A Outcome) (s : State A) : State A :=
  let guard := limit.map fun d => { limit := d, due := s.now + d.ceilMillis : Guard }
  s.onTask t fun k =>
    { k with frames := ⟨guard, k.passes.length, caller⟩ :: k.frames
             status := .running (w.body callee) }

/-- The listeners that a delivery around a task's program holds for a bus. -/
def enclosing (t : TaskId) (bus : BusId) (s : State A) : Option (List ListenerId) :=
  (s.tasks[t]?).bind fun k => (k.passes.find? fun p => p.bus = bus).map Pass.set

/-- Ends the innermost delivery of the current call. -/
def endPass (t : TaskId) (s : State A) : State A :=
  match s.tasks[t]? with
  | none => s
  | some k =>
    let depth := ((k.frames.head?).map Frame.depth).getD 0
    if depth < k.passes.length then s.endPasses t (k.passes.length - 1) else s

/-- Asks a task to end at its next wait. -/
def abort (t : TaskId) (s : State A) : State A :=
  match (s.tasks[t]?).map Task.status with
  | some (.ended _) | none => s
  | some _ => (s.onTask t fun k => { k with aborted := true }).wake t

/-- Panics: the nearest call around the program ends with it, or else the task does. -/
def panic (t : TaskId) (payload : Payload) (s : State A) : State A :=
  match (s.tasks[t]?).map Task.frames with
  | some (f :: rest) => s.leave t f rest (.error (.panicked payload.message))
  | _ => s.finish t .panicked

/-- Waits for termination, if the process can be told of signals.  A request that has been made may
be noticed before that is tried. -/
def awaitTermination (t : TaskId) (request : TokenId) (next : Termination → Program A Outcome)
    (s : State A) : State A :=
  if s.requestFirst && s.isCancelled request then s.resume t (next .requested)
  else match s.handle Signal.all with
    | (s, some error) => s.resume t (next (.unavailable error))
    | (s, none) => s.await t (.termination request none next)

/-- Performs one operation. -/
def operate (w : World A) (t : TaskId) (s : State A) :
    (op : Op A) → (op.Answer → Program A Outcome) → State A
  | .call callee limit, next => s.enter w t callee limit next
  | .panic payload, _ => s.panic t payload
  | .enclosing bus, next => s.resume t (next (s.enclosing t bus))
  | .beginDelivery bus, next => (s.claim bus ⟨t, .read⟩).await t (.beginning bus next)
  | .endDelivery, next => (s.endPass t).resume t (next ())
  | .listeners bus, next => (s.claim bus ⟨t, .read⟩).await t (.reading bus next)
  | .edit bus edit, next => (s.claim bus ⟨t, .write⟩).await t (.editing bus edit next)
  | .sleep millis, next => s.await t (.sleeping (s.now + millis) (next ()))
  | .hang, _ => s.await t .forever
  | .newToken parent, next =>
    let (s, token) := s.newToken parent
    s.resume t (next token)
  | .cancel token, next => (s.resume t (next ())).cancel token
  | .isCancelled token, next => s.resume t (next (s.isCancelled token))
  | .awaitCancel token, next => s.await t (.cancelled token (next ()))
  | .awaitCancelFor token millis, next => s.await t (.cancelledBy token (s.now + millis) next)
  | .spawn name job, next =>
    let (s, task) := s.startTask .task (w.job job)
    { s with handles := put name task s.handles }.resume t (next ())
  | .join name, next =>
    match s.handles.lookup name with
    | none => s.resume t (next none)
    | some task =>
      { s with handles := s.handles.filter fun e => e.1 ≠ name }.await t (.joining task next)
  | .abort name, next =>
    let s := s.resume t (next ())
    match s.handles.lookup name with
    | none => s
    | some task => s.abort task
  | .newCrew, next =>
    { s with crews := s.crews ++ [({} : CrewState)] }.resume t (next s.crews.length)
  | .hire crew name job, next =>
    let number := ((s.crews[crew]?).map CrewState.next).getD 0
    let s := s.onCrew crew fun c => (c.enrol name).1
    (s.startTask (.worker crew number name) (w.job job)).1.resume t (next ())
  | .crewNames crew, next =>
    s.resume t (next (((s.crews[crew]?).map CrewState.names).getD []))
  | .awaitCrew crew grace, next =>
    let s := s.onCrew crew fun c => { c with closed := true, emptied := false }
    s.await t (.crew crew (s.now + grace.ceilMillis) next)
  | .flags m, next => s.resume t (next (s.flagsOf m))
  | .markRunning m b, next => (s.onFlags m fun f => { f with running := b }).resume t (next ())
  | .markHealthy m b, next => (s.onFlags m fun f => { f with healthy := b }).resume t (next ())
  | .stored name, next => s.resume t (next (s.ensembles.lookup name))
  | .keep name e, next => { s with ensembles := put name e s.ensembles }.resume t (next ())
  | .forget name, next =>
    let known := (s.ensembles.lookup name).isSome
    { s with ensembles := s.ensembles.filter fun e => e.1 ≠ name }.resume t (next known)
  | .record r, next => (s.log r).resume t (next ())
  | .awaitTermination request, next => s.awaitTermination t request next
  | .exit number complaint, _ =>
    { s with exited := some (.status number complaint) }.await t .forever
  | .app effect, next =>
    let (answer, memory) := A.perform effect s.memory
    { s with memory := memory }.resume t (next answer)

/-- Takes the next step of a running program. -/
def execute (w : World A) (t : TaskId) (frames : List (Frame A)) (s : State A) :
    Program A Outcome → State A
  | .done o => match frames with
    | [] => s.finish t .finished
    | f :: rest => s.leave t f rest o
  | .perform op next => s.operate w t op next

/-- Lets a task take one step, if it can. -/
def advance (w : World A) (t : TaskId) (s : State A) : Option (State A) :=
  match s.tasks[t]? with
  | none => none
  | some k => match k.status with
    | .ended _ => none
    | .running p => some (s.execute w t k.frames p)
    | .waiting wait _ =>
      if k.aborted then some (s.finish t .aborted)
      else match s.proceed t wait with
        | some s' => some s'
        | none => match expired s.now k.frames with
          | some (f, limit, rest) => some (s.leave t f rest (.error (.timedOut limit)))
          | none => none

end State

end Orchestra.Machine
