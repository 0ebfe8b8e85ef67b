import Orchestra.Proofs.Execution

/-!
# What a step does to tokens and crews

Most steps have nothing to do with tokens and crews.  Those that have are told here once.

* `Task.post?`, `State.posts`, `State.staff` — whom a task works for as long as it has not ended, and the
  workers of a crew;
* `State.Spares` — nothing happens to tokens, crews and posts;
* `State.Effect` — what one step of one task does to them;
* `State.advance_effect` — every step of the machine does one of these things.
-/

namespace Orchestra.Machine

variable {A : Application}

/-! ### Posts -/

/-- Whether a task has ended. -/
def Status.isOver : Status A → Bool
  | ended _ => true
  | _ => false

/-- Whom a task works for, as which number and by which name, as long as it has not ended. -/
def Task.post? (k : Task A) : Option (CrewId × Nat × String) :=
  if k.status.isOver then none
  else match k.role with
    | .worker crew number name => some (crew, number, name)
    | _ => none

/-- The posts of all tasks. -/
def State.posts (s : State A) : List (Option (CrewId × Nat × String)) := s.tasks.map Task.post?

/-- The workers of a crew among the posts, by number and name. -/
def staffOf (crew : CrewId) (posts : List (Option (CrewId × Nat × String))) : List (Nat × String) :=
  posts.filterMap fun post => post.bind fun e => if e.1 = crew then some e.2 else none

/-- The workers of a crew that have not ended, by number and name. -/
def State.staff (crew : CrewId) (s : State A) : List (Nat × String) := staffOf crew s.posts

theorem Status.isOver_iff {status : Status A} : status.isOver = true ↔ status.doing = .ended := by
  cases status <;> simp [isOver, doing]

theorem Task.post?_of_role {k k' : Task A} (hrole : k'.role = k.role)
    (hover : k'.status.isOver = k.status.isOver) : k'.post? = k.post? := by
  rw [post?, post?, hrole, hover]

namespace State

variable {s s' s₁ : State A} {t : TaskId} {k : Task A}

/-! ### What spares tokens and crews -/

/-- Nothing happens to tokens, crews and posts. -/
structure Spares (s s' : State A) : Prop where
  tokens : s'.tokens = s.tokens
  crews : s'.crews = s.crews
  posts : s'.posts = s.posts

theorem Spares.refl (s : State A) : s.Spares s := ⟨rfl, rfl, rfl⟩

theorem Spares.trans (h : s.Spares s₁) (h' : s₁.Spares s') : s.Spares s' :=
  ⟨h'.tokens.trans h.tokens, h'.crews.trans h.crews, h'.posts.trans h.posts⟩

theorem posts_eq (h : s'.tasks = s.tasks) : s'.posts = s.posts := by
  rw [posts, posts, h]

theorem Spares.of_tasks (htokens : s'.tokens = s.tokens) (hcrews : s'.crews = s.crews)
    (htasks : s'.tasks = s.tasks) : s.Spares s' :=
  ⟨htokens, hcrews, posts_eq htasks⟩

theorem wake_spares (s : State A) (t : TaskId) : s.Spares (s.wake t) := by
  unfold wake
  split
  · split
    · exact .refl s
    · exact .of_tasks rfl rfl rfl
  · exact .refl s

theorem wakeAll_spares (s : State A) (ts : List TaskId) : s.Spares (s.wakeAll ts) := by
  induction ts generalizing s with
  | nil => exact .refl s
  | cons t rest ih => exact (s.wake_spares t).trans (ih (s.wake t))

theorem onLock_spares (s : State A) (b : BusId) (f : Lock → Lock × List TaskId) :
    s.Spares (s.onLock b f) := by
  unfold onLock
  split
  · exact .refl s
  · next bs _ =>
    have hset : s.Spares { s with buses := s.buses.set b { bs with lock := (f bs.lock).1 } } :=
      .of_tasks rfl rfl rfl
    exact hset.trans (wakeAll_spares _ (f bs.lock).2)

/-- A task changes, but not its post. -/
theorem onTask_spares {f : Task A → Task A} (h : s.tasks[t]? = some k)
    (hf : (f k).post? = k.post?) : s.Spares (s.onTask t f) := by
  refine ⟨rfl, rfl, List.ext_getElem? fun u => ?_⟩
  rw [posts, posts, onTask, List.getElem?_map, List.getElem?_map]
  by_cases hu : u = t
  · subst hu
    simp [h, hf]
  · simp [List.getElem?_modify_ne _ _ (Ne.symm hu)]

theorem setStatus_spares {status : Status A} (h : s.tasks[t]? = some k)
    (hover : status.isOver = k.status.isOver) : s.Spares (s.setStatus t status) :=
  onTask_spares h (Task.post?_of_role rfl hover)

theorem dropClaim_spares (s : State A) (t : TaskId) : s.Spares (s.dropClaim t) := by
  unfold dropClaim
  split
  · exact .refl s
  · split
    · exact .refl s
    · exact onLock_spares s _ _

theorem endPasses_spares (s : State A) (t : TaskId) (depth : Nat) : s.Spares (s.endPasses t depth) := by
  have hrelease : ∀ (ps : List Pass) (s : State A),
      s.Spares (ps.foldl (fun s p => s.onLock p.bus fun l => l.release ⟨t, .read⟩) s) := by
    intro ps
    induction ps with
    | nil => exact .refl
    | cons p rest ih => exact fun s => (onLock_spares s _ _).trans (ih _)
  unfold endPasses
  split
  · exact .refl s
  · next k hk => exact (onTask_spares hk (Task.post?_of_role rfl rfl)).trans (hrelease _ _)

/-- A task that a state has is still there after a change to another part of the state. -/
theorem dropClaim_task (h : s.tasks[t]? = some k) : (s.dropClaim t).tasks[t]? = some k := by
  rw [dropClaim_tasks, h]

theorem endPasses_task (h : s.tasks[t]? = some k) (depth : Nat) :
    (s.endPasses t depth).tasks[t]?
      = some { k with passes := k.passes.drop (k.passes.length - depth) } := by
  rw [endPasses_tasks h, tasks_onTask_self h]

theorem leave_spares {f : Frame A} {rest : List (Frame A)} (o : Outcome) (h : s.tasks[t]? = some k)
    (hlive : k.status.isOver = false) : s.Spares (s.leave t f rest o) := by
  refine ((dropClaim_spares s t).trans (endPasses_spares _ t f.depth)).trans ?_
  exact onTask_spares (endPasses_task (dropClaim_task h) f.depth) (Task.post?_of_role rfl hlive.symm)

theorem abort_spares (s : State A) (t : TaskId) : s.Spares (s.abort t) := by
  unfold abort
  cases hk : s.tasks[t]? with
  | none => exact .refl s
  | some k =>
    rw [Option.map_some]
    split
    · exact .refl s
    · exact .refl s
    · exact (onTask_spares hk (Task.post?_of_role rfl rfl)).trans (wake_spares _ t)

/-! ### Cancelling -/

/-- A token once it has been cancelled. -/
def cancelledToken (k : Token) : Token := { k with cancelled := true }

theorem cancelOne_crews (s : State A) (token : TokenId) : (s.cancelOne token).crews = s.crews := by
  unfold cancelOne
  split
  · rfl
  · exact (wakeAll_spares _ _).crews

theorem cancelOne_tokens (s : State A) (token : TokenId) :
    (s.cancelOne token).tokens = s.tokens.modify token cancelledToken := by
  unfold cancelOne
  split
  · next hcancelled =>
    -- A token that has been cancelled stays as it is.
    refine List.ext_getElem? fun i => ?_
    by_cases hi : i = token
    · subst hi
      rw [isCancelled] at hcancelled
      cases htoken : s.tokens[i]? with
      | none => simp [htoken]
      | some k =>
        rw [htoken, Option.map_some, Option.getD_some] at hcancelled
        simp [htoken, cancelledToken, ← hcancelled]
    · simp [List.getElem?_modify_ne _ _ (Ne.symm hi)]
  · exact (wakeAll_spares _ _).tokens

theorem foldl_cancelOne_tokens_eq (ks : List TokenId) (s : State A) :
    (ks.foldl (fun s k => s.cancelOne k) s).tokens
      = ks.foldl (fun tokens k => tokens.modify k cancelledToken) s.tokens := by
  induction ks generalizing s with
  | nil => rfl
  | cons k rest ih =>
    rw [List.foldl_cons, List.foldl_cons, ih, cancelOne_tokens]

theorem cancel_crews (s : State A) (token : TokenId) : (s.cancel token).crews = s.crews := by
  have hfold : ∀ (ks : List TokenId) (s : State A),
      (ks.foldl (fun s k => s.cancelOne k) s).crews = s.crews := by
    intro ks
    induction ks with
    | nil => exact fun _ => rfl
    | cons k rest ih => exact fun s => (ih _).trans (cancelOne_crews s k)
  unfold cancel
  split
  · rfl
  · exact (cancelOne_crews _ _).trans (hfold _ s)

/-- What becomes of the tokens when one of them is cancelled: those made from it are cancelled first. -/
theorem cancel_tokens (s : State A) (token : TokenId) :
    (s.cancel token).tokens = if s.isCancelled token then s.tokens
      else ((s.descendantsOf token).foldl (fun tokens k => tokens.modify k cancelledToken) s.tokens).modify
        token cancelledToken := by
  unfold cancel
  split
  · rfl
  · rw [cancelOne_tokens, foldl_cancelOne_tokens_eq]

theorem isCancelled_congr (h : s'.tokens = s.tokens) (token : TokenId) :
    s'.isCancelled token = s.isCancelled token := by
  rw [isCancelled, isCancelled, h]

theorem cancel_tokens_congr (h : s'.tokens = s.tokens) (token : TokenId) :
    (s'.cancel token).tokens = (s.cancel token).tokens := by
  have hbelow : s'.descendantsOf token = s.descendantsOf token := by rw [descendantsOf, descendantsOf, h]
  rw [cancel_tokens, cancel_tokens, isCancelled_congr h, hbelow, h]

/-! ### What a step does -/

/-- A task is about to perform an operation. -/
def IsAboutTo (s : State A) (t : TaskId) (op : Op A) : Prop :=
  ∃ next calls passes, s.core t = some ⟨.running (.perform op next), calls, passes⟩

/-- The crews once a task has ended that had a post, or none. -/
def crewsWithout (post : Option (CrewId × Nat × String)) (crews : List CrewState) : List CrewState :=
  match post with
  | some (crew, number, _) => crews.modify crew fun c => (c.dismiss number).uncount
  | none => crews

/-- A task ends: its post ends with it, and the crew it worked for counts it no longer. -/
structure Ends (t : TaskId) (s s' : State A) : Prop where
  task : ∃ k, s.tasks[t]? = some k ∧ k.status.isOver = false ∧ s'.crews = crewsWithout k.post? s.crews
  tokens : s'.tokens = s.tokens
  posts : s'.posts = s.posts.set t none

/-- What one step of task `t` does to tokens, crews and posts. -/
inductive Effect (t : TaskId) (s s' : State A) : Prop where
  | spares : s.Spares s' → Effect t s s'
  | makesToken (parent : Option TokenId) : s.IsAboutTo t (.newToken parent) →
      s'.tokens = s.tokens ++ [⟨parent, (parent.map fun p => s.isCancelled p).getD false⟩] →
      s'.crews = s.crews → s'.posts = s.posts → Effect t s s'
  | cancels (token : TokenId) : s.IsAboutTo t (.cancel token) →
      s'.tokens = (s.cancel token).tokens → s'.crews = s.crews → s'.posts = s.posts → Effect t s s'
  | makesCrew : s.IsAboutTo t .newCrew → s'.tokens = s.tokens → s'.crews = s.crews ++ [({} : CrewState)] →
      s'.posts = s.posts → Effect t s s'
  | closesCrew (crew : CrewId) (grace : Duration) : s.IsAboutTo t (.awaitCrew crew grace) →
      s'.tokens = s.tokens →
      s'.crews = s.crews.modify crew (fun c => { c with closed := true, emptied := false }) →
      s'.posts = s.posts → Effect t s s'
  | spawns (name : String) (job : A.Job) : s.IsAboutTo t (.spawn name job) → s'.tokens = s.tokens →
      s'.crews = s.crews → s'.posts = s.posts ++ [none] → Effect t s s'
  | hires (crew : CrewId) (name : String) (job : A.Job) : s.IsAboutTo t (.hire crew name job) →
      s'.tokens = s.tokens → s'.crews = s.crews.modify crew (fun c => (c.enrol name).1) →
      s'.posts = s.posts ++ [some (crew, ((s.crews[crew]?).map CrewState.next).getD 0, name)] →
      Effect t s s'
  | ends : s.Ends t s' → Effect t s s'

theorem posts_end {f : Task A → Task A} (h : s.tasks[t]? = some k) (hf : (f k).post? = none) :
    (s.onTask t f).posts = s.posts.set t none := by
  refine List.ext_getElem? fun u => ?_
  rw [posts, posts, onTask, List.getElem?_map]
  by_cases hu : u = t
  · subst hu
    obtain ⟨hlt, rfl⟩ := List.getElem?_eq_some_iff.1 h
    simp [hf, hlt]
  · simp [List.getElem?_modify_ne _ _ (Ne.symm hu), Ne.symm hu]

theorem discharge_crews (crew : CrewId) (number : Nat) (name : String) (s : State A) :
    (s.discharge crew number name).crews
      = s.crews.modify crew fun c => (c.dismiss number).uncount := by
  have hcrews : (((s.onCrew crew fun c => c.dismiss number).log ⟨.debug, Origin.workers,
      "worker finished", [.shown "worker" name]⟩).onCrew crew CrewState.uncount).crews
      = s.crews.modify crew fun c => (c.dismiss number).uncount :=
    List.modify_modify_eq _ _ _ _
  unfold discharge
  dsimp only
  split
  · split
    · rw [(wakeAll_spares _ _).crews, hcrews]
    · exact hcrews
  · exact hcrews

theorem discharge_tokens (crew : CrewId) (number : Nat) (name : String) (s : State A) :
    (s.discharge crew number name).tokens = s.tokens := by
  unfold discharge
  dsimp only
  split
  · split
    · rw [(wakeAll_spares _ _).tokens]
      rfl
    · rfl
  · rfl

theorem finish_ends (e : Ending) (h : s.tasks[t]? = some k) (hlive : k.status.isOver = false) :
    s.Ends t (s.finish t e) := by
  have hgiven : s.Spares ((s.dropClaim t).endPasses t 0) :=
    (dropClaim_spares s t).trans (endPasses_spares _ t 0)
  have htask := endPasses_task (dropClaim_task h) 0
  have hposts : (s.finish t e).posts = s.posts.set t none := by
    rw [posts_eq (finish_tasks e h), posts_end htask rfl, hgiven.posts]
  refine ⟨⟨k, h, hlive, ?crews⟩, ?tokens, hposts⟩
  case tokens =>
    rw [finish, h]
    dsimp only
    rw [(wakeAll_spares _ _).tokens]
    split
    · rw [discharge_tokens]
      exact hgiven.tokens
    · exact hgiven.tokens
  case crews =>
    have hpost : k.post? = match k.role with
        | .worker crew number name => some (crew, number, name)
        | _ => none := by rw [Task.post?, hlive]; rfl
    rw [finish, h, hpost]
    dsimp only
    rw [(wakeAll_spares _ _).crews]
    cases k.role with
    | worker crew number name =>
      have hcrews := hgiven.crews
      rw [discharge_crews]
      show ((s.dropClaim t).endPasses t 0).crews.modify crew _ = _
      rw [hcrews]
      rfl
    | _ => exact hgiven.crews

section Steps

variable {w : World A}

theorem panic_effect (payload : Payload) (h : s.tasks[t]? = some k) (hlive : k.status.isOver = false) :
    s.Effect t (s.panic t payload) := by
  rw [panic, h, Option.map_some]
  cases k.frames with
  | nil => exact .ends (finish_ends .panicked h hlive)
  | cons f rest => exact .spares (leave_spares _ h hlive)

theorem endPass_spares (s : State A) (t : TaskId) : s.Spares (s.endPass t) := by
  unfold endPass
  split
  · exact .refl s
  · dsimp only
    split
    · exact endPasses_spares s t _
    · exact .refl s

theorem endPass_task (h : s.tasks[t]? = some k) :
    ∃ k', (s.endPass t).tasks[t]? = some k' ∧ k'.status = k.status := by
  rw [endPass, h]
  dsimp only
  split
  · exact ⟨_, endPasses_task h _, rfl⟩
  · exact ⟨k, h, rfl⟩

theorem startTask_task (h : s.tasks[t]? = some k) (role : Role) (p : Program A Outcome) :
    (s.startTask role p).1.tasks[t]? = some k := by
  rw [startTask, List.getElem?_append_left (List.getElem?_eq_some_iff.1 h).1, h]

theorem startTask_posts (s : State A) (role : Role) (p : Program A Outcome) : (s.startTask role p).1.posts
    = s.posts ++ [({ role := role, status := .running p } : Task A).post?] := by
  rw [posts, startTask, List.map_append]
  rfl

/-- A worker is hired whether or not the crew has been closed. -/
theorem hire_posts {crew : CrewId} {name : String} {job : A.Job}
    {next : Unit → Program A Outcome} (h : s.tasks[t]? = some k) (hlive : k.status.isOver = false) :
    (s.operate w t (.hire crew name job) next).posts
      = s.posts ++ [some (crew, ((s.crews[crew]?).map CrewState.next).getD 0, name)] := by
  have hcrew : (s.onCrew crew fun c => (c.enrol name).1).tasks[t]? = some k := h
  have hover : (Status.running (next ())).isOver = k.status.isOver := hlive.symm
  have hsame := setStatus_spares (startTask_task hcrew
    (.worker crew (((s.crews[crew]?).map CrewState.next).getD 0) name) (w.job job)) hover
  exact hsame.posts.trans (startTask_posts _ _ _)

theorem operate_effect {op : Op A} {next : op.Answer → Program A Outcome}
    (h : s.tasks[t]? = some k) (hstatus : k.status = .running (.perform op next)) :
    s.Effect t (s.operate w t op next) := by
  have hlive : k.status.isOver = false := by
    rw [hstatus]
    rfl
  have habout : s.IsAboutTo t op := by
    refine ⟨next, k.core.calls, k.core.passes, ?_⟩
    rw [core_of_task h, Task.core, hstatus]
    rfl
  -- A task takes on another status after something that spares tokens, crews and posts.
  have hset : ∀ (s₁ : State A) (status : Status A), s₁.tasks[t]? = some k → status.isOver = false →
      s₁.Spares (s₁.setStatus t status) := by
    intro s₁ status hs₁ hover
    exact setStatus_spares hs₁ (by rw [hover, hlive])
  have hafter : ∀ (s₁ : State A) (status : Status A), s.Spares s₁ → s₁.tasks = s.tasks →
      status.isOver = false → s.Effect t (s₁.setStatus t status) := by
    intro s₁ status hs₁ htasks hover
    exact .spares (hs₁.trans (hset s₁ status (by rw [htasks, h]) hover))
  cases op with
  | call callee limit => exact .spares (onTask_spares h (Task.post?_of_role rfl (by rw [hlive]; rfl)))
  | panic payload => exact panic_effect payload h hlive
  | enclosing b => exact hafter s _ (.refl s) rfl rfl
  | beginDelivery b => exact hafter _ _ (onLock_spares s b _) (onLock_tasks s b _) rfl
  | listeners b => exact hafter _ _ (onLock_spares s b _) (onLock_tasks s b _) rfl
  | edit b e => exact hafter _ _ (onLock_spares s b _) (onLock_tasks s b _) rfl
  | endDelivery =>
    obtain ⟨k', hk', hsame⟩ := endPass_task h
    refine .spares ((endPass_spares s t).trans (setStatus_spares hk' ?_))
    rw [hsame, hlive]
    rfl
  | sleep millis => exact hafter s _ (.refl s) rfl rfl
  | hang => exact hafter s _ (.refl s) rfl rfl
  | newToken parent =>
    have hsame := hset (s.newToken parent).1 (.running (next (s.newToken parent).2)) h rfl
    exact .makesToken parent habout hsame.tokens hsame.crews hsame.posts
  | cancel token =>
    have hsame := hset s (.running (next ())) h rfl
    refine .cancels token habout (cancel_tokens_congr hsame.tokens token) ?_ ?_
    · exact (cancel_crews _ token).trans hsame.crews
    · exact (posts_eq (cancel_tasks _ token)).trans hsame.posts
  | isCancelled token => exact hafter s _ (.refl s) rfl rfl
  | awaitCancel token => exact hafter s _ (.refl s) rfl rfl
  | awaitCancelFor token millis => exact hafter s _ (.refl s) rfl rfl
  | spawn name job =>
    have hsame := hset _ (.running (next ())) (startTask_task h .task (w.job job)) rfl
    exact .spawns name job habout hsame.tokens hsame.crews
      (hsame.posts.trans (startTask_posts s .task (w.job job)))
  | join name =>
    rw [operate]
    split
    · exact hafter s _ (.refl s) rfl rfl
    · exact hafter { s with handles := s.handles.filter fun e => e.1 ≠ name } _
        (.of_tasks rfl rfl rfl) rfl rfl
  | abort name =>
    rw [operate]
    have hsame := hset s (.running (next ())) h rfl
    split
    · exact .spares hsame
    · exact .spares (hsame.trans (abort_spares _ _))
  | newCrew =>
    have hsame := hset { s with crews := s.crews ++ [({} : CrewState)] } (.running (next s.crews.length))
      h rfl
    exact .makesCrew habout hsame.tokens hsame.crews hsame.posts
  | hire crew name job =>
    have hcrew : (s.onCrew crew fun c => (c.enrol name).1).tasks[t]? = some k := h
    have hsame := hset _ (.running (next ())) (startTask_task hcrew
      (.worker crew (((s.crews[crew]?).map CrewState.next).getD 0) name) (w.job job)) rfl
    exact .hires crew name job habout hsame.tokens hsame.crews (hire_posts h hlive)
  | crewNames crew => exact hafter s _ (.refl s) rfl rfl
  | awaitCrew crew grace =>
    have hsame := hset (s.onCrew crew fun c => { c with closed := true, emptied := false })
      (.waiting (.crew crew (s.now + grace.ceilMillis) next) none) h rfl
    exact .closesCrew crew grace habout hsame.tokens hsame.crews hsame.posts
  | flags m => exact hafter s _ (.refl s) rfl rfl
  | markRunning m b =>
    exact hafter (s.onFlags m fun f => { f with running := b }) _ (.of_tasks rfl rfl rfl) rfl rfl
  | markHealthy m b =>
    exact hafter (s.onFlags m fun f => { f with healthy := b }) _ (.of_tasks rfl rfl rfl) rfl rfl
  | stored name => exact hafter s _ (.refl s) rfl rfl
  | keep name e =>
    exact hafter { s with ensembles := put name e s.ensembles } _ (.of_tasks rfl rfl rfl) rfl rfl
  | forget name =>
    exact hafter { s with ensembles := s.ensembles.filter fun e => e.1 ≠ name } _
      (.of_tasks rfl rfl rfl) rfl rfl
  | record r => exact hafter (s.log r) _ (.of_tasks rfl rfl rfl) rfl rfl
  | awaitTermination request =>
    rw [operate]
    obtain ⟨-, heq⟩ | ⟨handled, -, ⟨g, error, -, heq⟩ | ⟨-, heq⟩⟩ := awaitTermination_cases s t request next
    · rw [heq]
      exact hafter s _ (.refl s) rfl rfl
    · rw [heq]
      exact hafter { s with handled := handled } _ (.of_tasks rfl rfl rfl) rfl rfl
    · rw [heq]
      exact hafter { s with handled := handled } _ (.of_tasks rfl rfl rfl) rfl rfl
  | exit number complaint =>
    exact hafter { s with exited := some (.status number complaint) } _ (.of_tasks rfl rfl rfl) rfl rfl
  | app effect =>
    exact hafter { s with memory := (A.perform effect s.memory).2 } _ (.of_tasks rfl rfl rfl) rfl rfl

theorem proceed_spares {wait : Wait A} {stamp : Option Nat} (h : s.tasks[t]? = some k)
    (hstatus : k.status = .waiting wait stamp) (hs' : s.proceed t wait = some s') : s.Spares s' := by
  have hset : ∀ (s₁ : State A) (status : Status A), s.Spares s₁ → s₁.tasks = s.tasks →
      status.isOver = false → s.Spares (s₁.setStatus t status) := by
    intro s₁ status hs₁ htasks hover
    have htask : s₁.tasks[t]? = some k := by rw [htasks, h]
    refine hs₁.trans (setStatus_spares htask ?_)
    rw [hover, hstatus]
    rfl
  cases wait with
  | beginning b next =>
    rw [proceed] at hs'
    split at hs'
    · cases hs'
    · obtain rfl := Option.some.inj hs'
      have hpass := onTask_spares (f := fun k => { k with passes := ⟨b, s.listenersOf b⟩ :: k.passes }) h
        (Task.post?_of_role rfl rfl)
      refine hpass.trans (setStatus_spares (tasks_onTask_self h _) ?_)
      rw [hstatus]
      rfl
  | reading b next =>
    rw [proceed] at hs'
    split at hs'
    · cases hs'
    · obtain rfl := Option.some.inj hs'
      exact (hset s _ (.refl s) rfl rfl).trans (onLock_spares _ b _)
  | editing b e next =>
    rw [proceed] at hs'
    split at hs'
    · cases hs'
    · obtain rfl := Option.some.inj hs'
      exact hset s _ (.refl s) rfl rfl
  | replacing b e copy next =>
    obtain rfl := Option.some.inj hs'
    exact (hset (s.setListeners b (e.apply copy)) _ (.of_tasks rfl rfl rfl) rfl rfl).trans
      (onLock_spares _ b _)
  | _ =>
    obtain ⟨p, -, rfl⟩ := resumes_of_proceed rfl hs'
    exact hset s _ (.refl s) rfl rfl

/-- **Every step does one of these things** to tokens, crews and posts. -/
theorem advance_effect (h : s.advance w t = some s') : s.Effect t s' := by
  unfold advance at h
  cases hk : s.tasks[t]? with
  | none =>
    rw [hk] at h
    cases h
  | some k =>
    rw [hk] at h
    dsimp only at h
    cases hstatus : k.status with
    | ended e =>
      rw [hstatus] at h
      cases h
    | running p =>
      have hlive : k.status.isOver = false := by rw [hstatus]; rfl
      rw [hstatus] at h
      obtain rfl := Option.some.inj h
      cases p with
      | perform op next => exact operate_effect hk hstatus
      | done o =>
        cases hframes : k.frames with
        | nil => exact .ends (finish_ends .finished hk hlive)
        | cons f rest => exact .spares (leave_spares o hk hlive)
    | waiting wait stamp =>
      have hlive : k.status.isOver = false := by rw [hstatus]; rfl
      rw [hstatus] at h
      dsimp only at h
      split at h
      · obtain rfl := Option.some.inj h
        exact .ends (finish_ends .aborted hk hlive)
      · cases hproceed : s.proceed t wait with
        | some s₁ =>
          rw [hproceed] at h
          obtain rfl := Option.some.inj h
          exact .spares (proceed_spares hk hstatus hproceed)
        | none =>
          rw [hproceed] at h
          dsimp only at h
          split at h
          · obtain rfl := Option.some.inj h
            exact .spares (leave_spares _ hk hlive)
          · cases h

end Steps

end State

end Orchestra.Machine
