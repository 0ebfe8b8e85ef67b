import Orchestra.Proofs.Footing
import Orchestra.Proofs.Peace

/-!
# The console's worker in a session

In a session that nobody ends from outside, the worker of the console is the first to ask for the end.  Until it does,
the gateway is on the bus and no token is cancelled.

* `Opens`, `launch_opens`, `launch_swift` — the console's launch starts the worker, and no launch after it waits;
* `Stands` — what the main task is doing, by the footing of its program;
* `IsSession` — a session that nobody has a part in but its own tasks, without a signal;
* `Leap`, `IsSession.main_succ` — what a step makes of the footing;
* `Before`, `After`, `IsSession.before_or_after` — what holds until the worker is started, and from then on;
* `IsSession.worker` — so the worker is on its own, and the gateway is there;
* `directed_isSession` — a process to which no signal is sent is such a session, whoever's turn it is.
-/

namespace Orchestra.Console

open Machine Footing

variable {around : Surroundings}

/-! ### Launches -/

/-- The launch of the console: it writes records until it starts the worker, and does not wait after that. -/
inductive Opens (c : Kit) : Program app Outcome → Prop where
  | records {r : Record} {next : Unit → Program app Outcome} : Opens c (next ()) →
      Opens c (.perform (.record r) next)
  | hires {crew : CrewId} {name : String} {next : Unit → Program app Outcome} : (next ()).IsSwift →
      (next ()).Only IsMild → Opens c (.perform (.hire crew name (Job.input c)) next)

theorem launch_opens (c : Kit) : Opens c ((world around).body (.hook Part.console.id .launch c)) :=
  .records (.hires ⟨trivial, fun _ => rfl⟩ ⟨trivial, fun _ => trivial⟩)

/-- No launch waits, but that of the credentials. -/
theorem launch_swift {m : ListenerId} {c : Kit} (hconsole : m ≠ Part.console.id)
    (hcredentials : m ≠ Part.credentials.id) : ((world around).body (.hook m .launch c)).IsSwift := by
  dsimp only [world]
  cases hpart : Part.ofId? m with
  | none => exact rfl
  | some part =>
    obtain rfl := Part.eq_id_of_ofId? hpart
    cases part with
    | credentials => exact absurd rfl hcredentials
    | console => exact absurd rfl hconsole
    | gateway => exact ⟨trivial, fun _ => ⟨trivial, fun _ => ⟨trivial, fun _ => rfl⟩⟩⟩
    | _ => exact rfl

/-! ### What the main task is doing -/

/-- What the main task is doing, on top of some calls, while its program has some footing. -/
inductive Stands (outer : Calls app) : Footing → Core app → Prop where
  | runs {s : Footing} {p : Program app Outcome} {passes : List Pass} : Treads (fun _ _ => True) p s →
      Stands outer s ⟨.running p, outer, passes⟩
  | waits {s : Footing} {op : Op app} {next : op.Answer → Program app Outcome} {wait : Wait app} {passes : List Pass} :
      s.Allows op → (∀ a s', s.after op a = some s' → Treads (fun _ _ => True) (next a) s') →
      op.WaitsIn next wait → Stands outer s ⟨.waiting wait, outer, passes⟩
  /-- In a call that makes no difference. -/
  | within {s : Footing} {depth : Nat} {next : Outcome → Program app Outcome} {k : Core app} :
      (∀ o, Treads (fun _ _ => True) (next o) s) → k.Keeps IsMild ((depth, next) :: outer) → Stands outer s k
  /-- In a launch that does not fail. -/
  | launches {s : Footing} {depth : Nat} {next : Outcome → Program app Outcome} {p : Program app Outcome}
      {passes : List Pass} : Treads (fun _ _ => True) (next (.ok ())) s → p.IsSwift → p.Only IsMild →
      Stands outer s ⟨.running p, (depth, next) :: outer, passes⟩
  /-- In the launch of the console. -/
  | opens {depth : Nat} {next : Outcome → Program app Outcome} {c : Kit} {p : Program app Outcome}
      {passes : List Pass} : c.bus = bus → Treads (fun _ _ => True) (next (.ok ())) (.serving c.request) → Opens c p →
      Stands outer .gathered ⟨.running p, (depth, next) :: outer, passes⟩
  /-- The program is over, or has been cut off. -/
  | left {s : Footing} {k : Core app} : k.Keeps IsMild [] → Stands outer s k

section Stands

variable {outer : Calls app} {s : Footing} {k : Core app} {op : Op app} {next : op.Answer → Program app Outcome}

/-- What the main task is about to do. -/
theorem Stands.about (h : Stands outer s k) (hdoing : k.doing = .running (.perform op next)) :
    s.Allows op ∨ IsMild op ∨ s = .gathered ∧ ∃ crew name c, op = .hire crew name (Job.input c) := by
  cases h with
  | runs htreads =>
    cases hdoing
    exact .inl htreads.1
  | waits => cases hdoing
  | within _ hkeeps =>
    have hmild := hkeeps.doing
    rw [hdoing] at hmild
    exact .inr (.inl hmild.1)
  | launches _ _ hmild =>
    cases hdoing
    exact .inr (.inl hmild.1)
  | opens _ _ hopens =>
    cases hdoing
    cases hopens with
    | records _ => exact .inr (.inl trivial)
    | hires _ _ => exact .inr (.inr ⟨rfl, _, _, _, rfl⟩)
  | left hkeeps =>
    have hmild := hkeeps.doing
    rw [hdoing] at hmild
    exact .inr (.inl hmild.1)

/-- Nobody is started but those who give signs of life, and the worker. -/
theorem Stands.starts (h : Stands outer s k) (hdoing : k.doing = .running (.perform op next))
    (hstarts : (∃ name job, op = .spawn name job) ∨ ∃ crew name job, op = .hire crew name job) :
    IsMild op ∨ s = .gathered ∧ ∃ crew name c, op = .hire crew name (Job.input c) := by
  rcases h.about hdoing with hallows | hmild | hhires
  · exact .inl (mild_of_starts hallows hstarts)
  · exact .inl hmild
  · exact .inr hhires

end Stands

/-! ### Sessions -/

/-- A session that nobody has a part in but its own tasks, without a signal. -/
structure IsSession (x : Execution (world around)) (outer : Calls app) (i : Nat) : Prop where
  /-- The main task runs it, and whoever has called it does nothing else. -/
  begins : ∃ passes, (x.state i).core State.mainTask = some ⟨.running session, outer, passes⟩
  outer : ∀ f ∈ outer, ∀ o, ∃ o', f.2 o = .done o'
  alone : ∀ t k, t ≠ State.mainTask → (x.state i).core t = some k → k = ⟨.ended, [], []⟩
  fresh : ∀ token, (x.state i).isCancelled token = false
  proper : x.IsProper
  /-- Nobody is given anything to do once he has ended, -/
  finished : ∀ n t, i ≤ n → (x.state n).core t = some ⟨.ended, [], []⟩ →
    (x.state (n + 1)).core t = some ⟨.ended, [], []⟩
  /-- and nothing happens to tokens when it is nobody's turn. -/
  idle : ∀ n, i ≤ n → x.turn n = none → (x.state (n + 1)).tokens = (x.state n).tokens
  untold : ∀ n, i ≤ n → (x.state n).IsUntold

/-- Nothing is cancelled with the next step, and nobody is taken off a bus. -/
structure Calm (x : Execution (world around)) (n : Nat) : Prop where
  cancels : ∀ t token, x.turn n = some t → ¬ (x.state n).IsAboutTo t (.cancel token)
  removes : ∀ b l, x.edit b n ≠ some (.remove l)

section Sessions

variable {x : Execution (world around)} {outer : Calls app} {s s' : Footing} {k k' : Core app} {t u : TaskId}
  {i n : Nat} {P : Op app → Prop}

theorem IsSession.outer_mild (hx : IsSession x outer i) {f : Nat × (Outcome → Program app Outcome)} (hf : f ∈ outer)
    (o : Outcome) : (f.2 o).Only IsMild := by
  obtain ⟨o', ho'⟩ := hx.outer f hf o
  rw [ho']
  exact Program.only_pure o'

/-- Whoever is cut off does no harm. -/
theorem IsSession.keeps_cut (hx : IsSession x outer i) {before after : Calls app}
    {f : Nat × (Outcome → Program app Outcome)} {o : Outcome} (houter : outer = before ++ f :: after)
    (hdoing : k.doing = .running (f.2 o)) (hcalls : k.calls = after) : k.Keeps IsMild [] := by
  have hmem : ∀ f' ∈ f :: after, f' ∈ outer := fun f' hf' => houter ▸ List.mem_append_right _ hf'
  refine ⟨?_, after, hcalls.trans (List.append_nil _).symm, fun f' hf' => ?_⟩
  · rw [hdoing]
    exact hx.outer_mild (hmem f List.mem_cons_self) o
  · exact hx.outer_mild (hmem f' (List.mem_cons_of_mem _ hf'))

/-- Whose turn it is not, he does what he did, or has ended. -/
theorem IsSession.rests (hx : IsSession x outer i) (hin : i ≤ n) (hturn : x.turn n ≠ some t)
    (hk : (x.state n).core t = some k) (hk' : (x.state (n + 1)).core t = some k') : k' = k ∨ k' = ⟨.ended, [], []⟩ := by
  rcases x.core_cases hk' with ⟨-, hsame⟩ | ⟨_, hown, -⟩ | ⟨hnone, -⟩ | ⟨hended, -⟩ | hended
  · exact .inl (Option.some.inj (hsame.symm.trans hk))
  · exact absurd hown hturn
  · cases hnone.symm.trans hk
  · exact .inr (Option.some.inj (hk'.symm.trans (hx.finished n t hin hended)))
  · exact .inr hended

/-- Somebody keeps to a sort of operations, if those do that are started. -/
theorem IsSession.keeps_succ (hx : IsSession x outer i) (hin : i ≤ n) (hP : (world around).Confines P)
    (hstarts : ∀ t name job, x.turn n = some t → u = (x.state n).tasks.length →
      ((x.state n).IsAboutTo t (.spawn name job) ∨ ∃ crew, (x.state n).IsAboutTo t (.hire crew name job)) →
        (doJob around job).Only P)
    (h : ∀ k, (x.state n).core u = some k → k.Keeps P []) (hk' : (x.state (n + 1)).core u = some k') :
    k'.Keeps P [] := by
  rcases x.core_cases hk' with ⟨-, hsame⟩ | ⟨k, -, hk, hstep⟩ | ⟨hnone, -⟩ | ⟨hended, -⟩ | rfl
  · exact h k' hsame
  · exact hstep.keeps_nil hP (h k hk)
  · obtain ⟨t, name, job, hturn, hu, habout, rfl⟩ := Execution.started hx.proper hnone hk'
    exact Core.keeps_of_only (hstarts t name job hturn hu habout)
  · obtain rfl := Option.some.inj (hk'.symm.trans (hx.finished n u hin hended))
    exact Core.keeps_ended
  · exact Core.keeps_ended

/-! ### Calm steps -/

theorem Calm.uncancelled (hx : IsSession x outer i) (hin : i ≤ n) (h : Calm x n)
    (hfresh : ∀ token, (x.state n).isCancelled token = false) (token : TokenId) :
    (x.state (n + 1)).isCancelled token = false := by
  cases hturn : x.turn n with
  | none => exact (State.isCancelled_congr (hx.idle n hin hturn) token).trans (hfresh token)
  | some t =>
    exact (State.advance_effect (Execution.advance_of_turn hturn)).uncancelled (fun token => h.cancels t token hturn)
      hfresh token

theorem Calm.mem_listeners (h : Calm x n) {b : BusId} {l : ListenerId} (hl : l ∈ x.listeners b n) :
    l ∈ x.listeners b (n + 1) :=
  Execution.mem_listeners_succ.2 (.inr ⟨hl, h.removes b l⟩)

theorem calm_of_idle (hturn : x.turn n = none) : Calm x n := by
  refine ⟨fun t token ht => ?_, fun b l hedit => ?_⟩
  · cases hturn.symm.trans ht
  · obtain ⟨t, _, _, ht, -⟩ := Execution.edit_eq_some hedit
    cases hturn.symm.trans ht

/-- A step is calm with which nothing is parted. -/
theorem calm_of_doing (hturn : x.turn n = some t) (hk : (x.state n).core t = some k)
    (hk' : (x.state (n + 1)).core t = some k')
    (hcancels : ∀ token next, k.doing ≠ .running (.perform (.cancel token) next))
    (hremoves : ∀ b l, k.doing.edits b k'.doing ≠ some (.remove l)) : Calm x n := by
  refine ⟨fun u token hu habout => ?_, fun b l hedit => ?_⟩
  · obtain rfl := Option.some.inj (hturn.symm.trans hu)
    obtain ⟨next, calls, passes, hcore⟩ := habout
    obtain rfl := Option.some.inj (hk.symm.trans hcore)
    exact hcancels token next rfl
  · rw [Execution.edit_of_turn hturn hk hk'] at hedit
    exact hremoves b l hedit

/-- Whoever keeps to operations that part nobody takes calm steps. -/
theorem calm_of_keeps (hturn : x.turn n = some t) (hk : (x.state n).core t = some k)
    (hk' : (x.state (n + 1)).core t = some k') (hkeeps : k.doing.Keeps P)
    (hcancels : ∀ token next, k.doing = .running (.perform (.cancel token) next) → ¬ P (.cancel token))
    (hremoves : ∀ b l, ¬ P (.edit b (.remove l))) : Calm x n := by
  refine calm_of_doing hturn hk hk' (fun token next heq => hcancels token next heq ?_) fun b l hedits => ?_
  · rw [heq] at hkeeps
    exact hkeeps.1
  · obtain ⟨copy, next, -, hdoing, -⟩ := Doing.edits_eq_some hedits
    rw [hdoing] at hkeeps
    exact hremoves b l (hkeeps.1 _ rfl)

theorem calm_of_mild (hturn : x.turn n = some t) (hk : (x.state n).core t = some k)
    (hk' : (x.state (n + 1)).core t = some k') (hkeeps : k.doing.Keeps IsMild) : Calm x n :=
  calm_of_keeps hturn hk hk' hkeeps (fun _ _ _ => id) fun _ _ => id

/-! ### The footing of the main task -/

/-- Where the main task gets with a step. -/
inductive Reaches (x : Execution (world around)) (n : Nat) : Footing → Footing → Prop where
  | stays (s : Footing) : Reaches x n s s
  | gathers : x.edit bus n = some (.add Part.gateway.id) → Reaches x n .building .gathered
  | fails : Reaches x n .gathered .closing
  | serves {crew : CrewId} {name : String} {c : Kit} : x.turn n = some State.mainTask →
      (x.state n).IsAboutTo State.mainTask (.hire crew name (Job.input c)) → c.bus = bus →
      Reaches x n .gathered (.serving c.request)
  | ends {request : TokenId} : (x.state n).isCancelled request = true → Reaches x n (.serving request) .closing

/-- What a step makes of the footing of the main task: it serves only once the worker has been started, and nothing is
parted before the end. -/
structure Leap (x : Execution (world around)) (n : Nat) (s s' : Footing) : Prop where
  reaches : Reaches x n s s'
  hires : ∀ crew name c, x.turn n = some State.mainTask →
    (x.state n).IsAboutTo State.mainTask (.hire crew name (Job.input c)) → c.bus = bus ∧ s' = .serving c.request
  calm : x.turn n = some State.mainTask → s' ≠ .closing → Calm x n

section Main

variable {op : Op app} {next : op.Answer → Program app Outcome} (hturn : x.turn n = some State.mainTask)
  (hk : (x.state n).core State.mainTask = some k) (hk' : (x.state (n + 1)).core State.mainTask = some k')
include hturn hk hk'

/-- A mild step leads nowhere. -/
theorem leap_of_mild (hkeeps : k.doing.Keeps IsMild) : Leap x n s s := by
  refine ⟨.stays s, fun crew name c _ habout => ?_, fun _ _ => calm_of_mild hturn hk hk' hkeeps⟩
  obtain ⟨next, calls, passes, hcore⟩ := habout
  obtain rfl := Option.some.inj (hk.symm.trans hcore)
  obtain ⟨c', hc'⟩ := hkeeps.1
  cases hc'

/-- An operation that is allowed leads where it may, provided that all is over once something is parted. -/
theorem leap_of_allows (hallows : s.Allows op)
    (hdoing : k.doing = .running (.perform op next) ∨ ∃ wait, op.WaitsIn next wait ∧ k.doing = .waiting wait)
    (hreaches : Reaches x n s s') (hcancel : ∀ token, op = .cancel token → s' = .closing)
    (hremove : ∀ b l p, op = .edit b (.remove l) → k'.doing = .running p → s' = .closing) : Leap x n s s' := by
  refine ⟨hreaches, fun crew name c _ habout => ?_, fun _ hs' => ?_⟩
  · obtain ⟨next', calls, passes, hcore⟩ := habout
    obtain rfl := Option.some.inj (hk.symm.trans hcore)
    rcases hdoing with hdoing | ⟨wait, -, hdoing⟩
    · cases hdoing
      obtain ⟨c', heq⟩ := mild_of_starts hallows (.inr ⟨crew, name, Job.input c, rfl⟩)
      cases heq
    · cases hdoing
  · refine calm_of_doing hturn hk hk' (fun token next' heq => ?_) fun b l hedits => ?_
    · rcases hdoing with hdoing | ⟨wait, -, hdoing⟩
      · cases hdoing.symm.trans heq
        exact hs' (hcancel token rfl)
      · cases hdoing.symm.trans heq
    · obtain ⟨copy, next', p, heq, hrunning⟩ := Doing.edits_eq_some hedits
      rcases hdoing with hdoing | ⟨wait, hwait, hdoing⟩
      · cases hdoing.symm.trans heq
      · cases hdoing.symm.trans heq
        exact hs' (hremove b l p (hwait.eq_asked rfl) hrunning)

/-- Whoever is cut off is at the end, or stays where he is. -/
theorem exists_leap (hallows : s.Allows op)
    (hdoing : k.doing = .running (.perform op next) ∨ ∃ wait, op.WaitsIn next wait ∧ k.doing = .waiting wait) :
    ∃ s', Leap x n s s' := by
  by_cases hs : s = .gathered
  · subst hs
    exact ⟨.closing, leap_of_allows hturn hk hk' hallows hdoing .fails (fun _ _ => rfl) fun _ _ _ _ _ => rfl⟩
  · refine ⟨s, leap_of_allows hturn hk hk' hallows hdoing (.stays s) (fun token hop => ?_) fun b l _ hop _ => ?_⟩
    · exact (after_parting hallows (.inl ⟨token, hop⟩)).1.resolve_left hs
    · exact (after_parting hallows (.inr ⟨b, l, hop⟩)).1.resolve_left hs

/-- Whoever goes on with an answer gets where it leads. -/
theorem leap_of_goesOn (hallows : s.Allows op)
    (htreads : ∀ a s', s.after op a = some s' → Treads (fun _ _ => True) (next a) s')
    (hcall : ∀ callee limit, op ≠ .call callee limit)
    (hdoing : k.doing = .running (.perform op next) ∨ ∃ wait, op.WaitsIn next wait ∧ k.doing = .waiting wait)
    (h : (x.state n).GoesOn op next outer k.doing k') : ∃ s', Stands outer s' k' ∧ Leap x n s s' := by
  obtain ⟨a, passes', htells, hsignal, hedits, rfl⟩ := h
  obtain ⟨s', hafter, hpath⟩ := exists_path hallows hcall a
  refine ⟨s', .runs (htreads a s' hafter), leap_of_allows hturn hk hk' hallows hdoing ?_ (fun token hop => ?_)
    fun b l _ hop _ => ?_⟩
  · cases hpath with
    | stays => exact .stays s
    | gathers a => exact .gathers ((Execution.edit_of_turn hturn hk hk').trans (hedits _ _ rfl))
    | fails => exact .fails
    | requested request => exact .ends (htells.1 rfl)
    | signalled request g => exact absurd rfl (hsignal request g)
    | awaited request a => exact .ends htells
  · exact (after_parting hallows (.inl ⟨token, hop⟩)).2 a _ hafter
  · exact (after_parting hallows (.inr ⟨b, l, hop⟩)).2 a _ hafter

omit hturn hk hk' in
/-- A call is entered: it makes no difference, or it is a launch that does not fail. -/
theorem stands_of_call {callee : Callee} {limit : Option Duration} {next : Outcome → Program app Outcome}
    {passes : List Pass} (hallows : s.Allows (.call callee limit))
    (htreads : ∀ a s', s.after (.call callee limit) a = some s' → Treads (fun _ _ => True) (next a) s') :
    Stands outer s ⟨.running ((world around).body callee), (passes.length, next) :: outer, passes⟩ := by
  have hwithin : IsMild (.call callee limit) → (∀ o, s.after (.call callee limit) o = some s) →
      Stands outer s ⟨.running ((world around).body callee), (passes.length, next) :: outer, passes⟩ :=
    fun hmild hafter => .within (fun o => htreads o s (hafter o))
      (Core.keeps_of_only (world_confines around callee limit hmild))
  cases s with
  | building => exact hwithin hallows fun _ => rfl
  | closing =>
    rcases hallows with hmild | ⟨token, heq⟩ | ⟨b, l, heq⟩
    · exact hwithin hmild fun _ => rfl
    · cases heq
    · cases heq
  | gathered =>
    rcases hallows with (hmild | ⟨token, heq⟩ | ⟨b, l, heq⟩) | ⟨c, limit', heq, hbus⟩
    · exact hwithin hmild (bears_gathered hmild).2
    · cases heq
    · cases heq
    · cases heq
      exact .opens hbus (htreads (.ok ()) (.serving c.request) rfl) (launch_opens c)
  | serving request =>
    obtain ⟨hmild, -, hcredentials⟩ := hallows
    cases callee with
    | hook m p c =>
      cases p with
      | launch =>
        refine .launches (htreads (.ok ()) (.serving request) rfl) (launch_swift (fun hm => hmild hm rfl) fun hm => ?_)
          (world_confines around _ limit hmild)
        exact hcredentials c limit (by rw [hm])
      | _ => exact hwithin hmild fun _ => rfl
    | _ => exact hwithin hmild fun _ => rfl

end Main

section Succ

variable {passes : List Pass} (hturn : x.turn n = some State.mainTask)
  (hk' : (x.state (n + 1)).core State.mainTask = some k')
include hturn hk'

/-- After the end the main task does no harm. -/
theorem left_succ (hk : (x.state n).core State.mainTask = some k) (hkeeps : k.Keeps IsMild []) :
    Stands outer s k' ∧ Leap x n s s :=
  have hstep := Execution.step_of_turn hturn hk hk'
  ⟨.left (hstep.keeps_nil (world_confines around) hkeeps), leap_of_mild hturn hk hk' hkeeps.doing⟩

/-- A launch goes on without waiting. -/
theorem launches_succ {depth : Nat} {next : Outcome → Program app Outcome} {p : Program app Outcome}
    (hnext : Treads (fun _ _ => True) (next (.ok ())) s) (hswift : p.IsSwift) (hmild : p.Only IsMild)
    (hk : (x.state n).core State.mainTask = some ⟨.running p, (depth, next) :: outer, passes⟩) :
    Stands outer s k' ∧ Leap x n s s := by
  have hadvance := Execution.advance_of_turn hturn
  refine ⟨?_, leap_of_mild hturn hk hk' hmild⟩
  cases p with
  | done o =>
    obtain rfl : o = .ok () := hswift
    obtain ⟨passes', hcore⟩ := State.advance_done hadvance hk
    obtain rfl := Option.some.inj (hk'.symm.trans hcore)
    exact .runs hnext
  | perform op rest =>
    obtain ⟨a, hcore⟩ := State.advance_swift hadvance hk hswift.1
    obtain rfl := Option.some.inj (hk'.symm.trans hcore)
    exact .launches hnext (hswift.2 a) (hmild.2 a)

/-- The launch of the console goes on without waiting, and with the worker the session serves. -/
theorem opens_succ {depth : Nat} {next : Outcome → Program app Outcome} {c : Kit} {p : Program app Outcome}
    (hbus : c.bus = bus) (hnext : Treads (fun _ _ => True) (next (.ok ())) (.serving c.request)) (hopens : Opens c p)
    (hk : (x.state n).core State.mainTask = some ⟨.running p, (depth, next) :: outer, passes⟩) :
    ∃ s', Stands outer s' k' ∧ Leap x n .gathered s' := by
  have hadvance := Execution.advance_of_turn hturn
  cases hopens with
  | @records r rest hrest =>
    obtain ⟨a, hcore⟩ := State.advance_swift hadvance hk trivial
    obtain rfl := Option.some.inj (hk'.symm.trans hcore)
    refine ⟨.gathered, .opens hbus hnext hrest, .stays _, fun crew name c' _ habout => ?_, fun _ _ => ?_⟩
    · obtain ⟨next', calls, passes', hcore'⟩ := habout
      cases hk.symm.trans hcore'
    · refine calm_of_doing hturn hk hk' (fun token next' heq => ?_) fun b l heq => ?_ <;> cases heq
  | @hires crew name rest hswift hmild =>
    obtain ⟨a, hcore⟩ := State.advance_swift hadvance hk trivial
    obtain rfl := Option.some.inj (hk'.symm.trans hcore)
    refine ⟨.serving c.request, .launches hnext hswift hmild, .serves hturn ⟨rest, _, _, hk⟩ hbus,
      fun crew' name' c' _ habout => ?_, fun _ _ => ?_⟩
    · obtain ⟨next', calls, passes', hcore'⟩ := habout
      cases hk.symm.trans hcore'
      exact ⟨hbus, rfl⟩
    · refine calm_of_doing hturn hk hk' (fun token next' heq => ?_) fun b l heq => ?_ <;> cases heq

/-- A call that makes no difference goes on, or is over. -/
theorem within_succ (hx : IsSession x outer i) {depth : Nat} {next : Outcome → Program app Outcome}
    (hnext : ∀ o, Treads (fun _ _ => True) (next o) s) (hkeeps : k.Keeps IsMild ((depth, next) :: outer))
    (hk : (x.state n).core State.mainTask = some k) : Stands outer s k' ∧ Leap x n s s := by
  refine ⟨?_, leap_of_mild hturn hk hk' hkeeps.doing⟩
  rcases (Execution.step_of_turn hturn hk hk').keeps (world_confines around) hkeeps with
    hkeeps | rfl | ⟨before, f, after, o, houter, hdoing, hcalls⟩
  · exact .within hnext hkeeps
  · exact .left Core.keeps_ended
  · cases before with
    | nil =>
      obtain ⟨rfl, rfl⟩ := List.cons.inj houter
      obtain ⟨doing, calls, passes⟩ := k'
      obtain rfl : doing = _ := hdoing
      obtain rfl : calls = _ := hcalls
      exact .runs (hnext o)
    | cons f' before => exact .left (hx.keeps_cut (List.cons.inj houter).2 hdoing hcalls)

/-- Whoever is in none of these calls asks for something, or waits for it. -/
theorem program_succ (hx : IsSession x outer i) (hin : i ≤ n) {op : Op app} {next : op.Answer → Program app Outcome}
    {doing : Doing app} (hk : (x.state n).core State.mainTask = some ⟨doing, outer, passes⟩) (hallows : s.Allows op)
    (htreads : ∀ a s', s.after op a = some s' → Treads (fun _ _ => True) (next a) s')
    (hdoing : doing = .running (.perform op next) ∨ ∃ wait, op.WaitsIn next wait ∧ doing = .waiting wait) :
    ∃ s', Stands outer s' k' ∧ Leap x n s s' := by
  have hadvance := Execution.advance_of_turn hturn
  have hstep := Execution.step_of_turn hturn hk hk'
  have hcut : k'.Keeps IsMild [] → ∃ s', Stands outer s' k' ∧ Leap x n s s' := fun hkeeps => by
    obtain ⟨s', hleap⟩ := exists_leap hturn hk hk' hallows hdoing
    exact ⟨s', .left hkeeps, hleap⟩
  rcases hstep.cut_cases with ⟨hended, hdepth⟩ | rfl | ⟨before, f, after, o, houter, hcaller, hcalls⟩
  · have hgoes : State.IsWaiting op next outer k' ∨ (x.state n).GoesOn op next outer doing k' →
        (∀ callee limit, op ≠ .call callee limit) → ∃ s', Stands outer s' k' ∧ Leap x n s s' := by
      rintro (⟨wait, passes', hwait, rfl⟩ | hgoes) hcall
      · refine ⟨s, .waits hallows htreads hwait,
          leap_of_allows hturn hk hk' hallows hdoing (.stays s) (fun token hop => ?_) fun b l p _ hrunning => ?_⟩
        · subst hop
          exact hwait.elim
        · cases hrunning
      · exact leap_of_goesOn hturn hk hk' hallows htreads hcall hdoing hgoes
    rcases hdoing with rfl | ⟨wait, hwait, rfl⟩
    · by_cases hcall : ∃ callee limit, op = .call callee limit
      · obtain ⟨callee, limit, rfl⟩ := hcall
        obtain rfl := Step.of_call hended hdepth hstep
        refine ⟨s, stands_of_call hallows htreads,
          leap_of_allows hturn hk hk' hallows (.inl rfl) (.stays s) (fun token hop => ?_) fun b l p hop _ => ?_⟩ <;>
          cases hop
      · have hcall' : ∀ callee limit, op ≠ .call callee limit := fun callee limit hop => hcall ⟨callee, limit, hop⟩
        exact hgoes (State.advance_answered hadvance hk' hended hdepth hcall' hk) hcall'
    · refine hgoes (State.advance_awaited hadvance hk' hended hdepth (hx.untold n hin) hwait hk) fun _ _ hop => ?_
      subst hop
      exact hwait.elim
  · exact hcut Core.keeps_ended
  · exact hcut (hx.keeps_cut houter hcaller hcalls)

end Succ

/-- **The main task keeps its footing**, or leaps to another one. -/
theorem IsSession.main_succ (hx : IsSession x outer i) (hin : i ≤ n) (hk : (x.state n).core State.mainTask = some k)
    (hk' : (x.state (n + 1)).core State.mainTask = some k') (h : Stands outer s k) :
    ∃ s', Stands outer s' k' ∧ Leap x n s s' := by
  by_cases hturn : x.turn n = some State.mainTask
  · cases h with
    | @runs _ p passes htreads =>
      cases p with
      | done o =>
        refine ⟨s, left_succ hturn hk' hk ⟨trivial, outer, (List.append_nil _).symm, fun f hf o => ?_⟩⟩
        exact hx.outer_mild hf o
      | perform op next => exact program_succ hturn hk' hx hin hk htreads.1 htreads.2 (.inl rfl)
    | @waits _ op next wait passes hallows htreads hwait =>
      exact program_succ hturn hk' hx hin hk hallows htreads (.inr ⟨wait, hwait, rfl⟩)
    | within hnext hkeeps => exact ⟨s, within_succ hturn hk' hx hnext hkeeps hk⟩
    | launches hnext hswift hmild => exact ⟨s, launches_succ hturn hk' hnext hswift hmild hk⟩
    | opens hbus hnext hopens => exact opens_succ hturn hk' hbus hnext hopens hk
    | left hkeeps => exact ⟨s, left_succ hturn hk' hk hkeeps⟩
  · refine ⟨s, ?_, .stays s, fun _ _ _ ht => absurd ht hturn, fun ht => absurd ht hturn⟩
    rcases hx.rests hin hturn hk hk' with rfl | rfl
    · exact h
    · exact .left Core.keeps_ended

/-! ### Before and after the worker is started -/

/-- Until the worker is started or the session is over: if the parts have been put together, the gateway is on the
bus. -/
structure Before (x : Execution (world around)) (outer : Calls app) (n : Nat) : Prop where
  main : ∃ s k, (x.state n).core State.mainTask = some k ∧ Stands outer s k ∧ (∀ request, s ≠ .serving request) ∧
    (s ≠ .closing → ∀ token, (x.state n).isCancelled token = false) ∧
    (s = .gathered → Part.gateway.id ∈ x.listeners bus n)
  others : ∀ u k, u ≠ State.mainTask → (x.state n).core u = some k → k.Keeps IsMild []

/-- What a task may do once `t` is the worker: the worker alone asks for a shutdown. -/
def MayAsk (t : TaskId) (c : Kit) (u : TaskId) (op : Op app) : Prop := IsMild op ∨ u = t ∧ op = .cancel c.request

/-- Since the worker has been started after `h` steps. -/
structure After (x : Execution (world around)) (outer : Calls app) (t : TaskId) (c : Kit) (h n : Nat) : Prop where
  main : ∃ s k, (x.state n).core State.mainTask = some k ∧ Stands outer s k ∧
    (s = .serving c.request ∨ s = .closing ∧ .cancel c.request ∈ x.asked t h n)
  quiet : .cancel c.request ∉ x.asked t h n →
    (∀ token, (x.state n).isCancelled token = false) ∧ Part.gateway.id ∈ x.listeners bus n
  others : ∀ u k, u ≠ State.mainTask → (x.state n).core u = some k → k.Keeps (MayAsk t c u) []

theorem mayAsk_confines (t : TaskId) (c : Kit) (u : TaskId) : (world around).Confines (MayAsk t c u) := by
  rintro callee limit (hmild | ⟨-, heq⟩)
  · exact (world_confines around callee limit hmild).mono fun _ => .inl
  · cases heq

theorem dispatch_mild (b : BusId) (key : EventKey) (as : Arguments) (targets : Option TargetSet) :
    (Bus.dispatch (A := app) cast b key as targets).Only IsMild := by
  unfold Bus.dispatch
  split
  · exact Program.only_pure _
  · exact Program.only_bind ((Bus.publish_publishes ..).mono fun _ => mild_of_publishes) fun _ => Program.only_pure _

/-- The worker asks for nothing else. -/
theorem input_mayAsk (t : TaskId) (c : Kit) : (doJob around (Job.input c)).Only (MayAsk t c t) := by
  have hfollows : ∀ lines k, (followInput around c k lines).Only (MayAsk t c t) := by
    intro lines
    induction lines with
    | nil =>
      intro k
      rw [followInput]
      split
      · exact Program.only_ask (.inl trivial)
      · exact Program.only_bind (Program.only_ask (.inl trivial)) fun _ => Program.only_pure _
    | cons line rest ih =>
      intro k
      unfold followInput
      refine Program.only_bind (Program.only_ask (.inl trivial)) fun told => ?_
      split
      · exact Program.only_pure ()
      · cases line with
        | error flaw => exact Program.only_ask (.inl trivial)
        | ok line =>
          dsimp only
          split
          · exact Program.only_ask (.inr ⟨rfl, rfl⟩)
          · refine Program.only_bind ((dispatch_mild ..).mono fun _ => .inl) fun d => ?_
            cases d with
            | ok d => exact ih _
            | error e => exact Program.only_bind (Program.only_ask (.inl trivial)) fun _ => ih _
  exact Program.only_bind (hfollows _ _) fun _ => Program.only_pure _

theorem heartbeat_mild (c : Kit) : (doJob around (Job.heartbeat c)).Only IsMild :=
  Program.only_bind (giveSigns_mild c _ _) fun _ => Program.only_pure _

/-- Whoever is started gives signs of life, or is the worker, whom the main task starts once the parts have been put
together. -/
theorem starts_cases {Q : TaskId → Op app → Prop} (hQ : ∀ u op, Q u op → IsMild op ∨ ∃ token, op = .cancel token)
    (hk : (x.state n).core State.mainTask = some k) (hstands : Stands outer s k)
    (hothers : ∀ u k, u ≠ State.mainTask → (x.state n).core u = some k → k.Keeps (Q u) []) {name : String} {job : Job}
    (habout : (x.state n).IsAboutTo t (.spawn name job) ∨ ∃ crew, (x.state n).IsAboutTo t (.hire crew name job)) :
    (∃ c, job = Job.heartbeat c) ∨ t = State.mainTask ∧ s = .gathered ∧ ∃ crew c, job = Job.input c ∧
      (x.state n).IsAboutTo State.mainTask (.hire crew name (Job.input c)) := by
  by_cases ht : t = State.mainTask
  · subst ht
    rcases habout with ⟨next, calls, passes, hcore⟩ | ⟨crew, next, calls, passes, hcore⟩
    · obtain rfl := Option.some.inj (hk.symm.trans hcore)
      rcases hstands.starts rfl (.inl ⟨name, job, rfl⟩) with hmild | ⟨-, _, _, _, heq⟩
      · exact hmild.elim
      · cases heq
    · obtain rfl := Option.some.inj (hk.symm.trans hcore)
      rcases hstands.starts rfl (.inr ⟨crew, name, job, rfl⟩) with hmild | ⟨hs, _, _, c, heq⟩
      · exact .inl hmild
      · cases heq
        exact .inr ⟨rfl, hs, crew, c, rfl, next, calls, passes, hcore⟩
  · have hmay : ∀ op, (x.state n).IsAboutTo t op → IsMild op ∨ ∃ token, op = .cancel token := by
      rintro op ⟨next, calls, passes, hcore⟩
      exact hQ t op (Core.Keeps.about ⟨_, hcore, hothers t _ ht hcore⟩ ⟨next, calls, passes, hcore⟩)
    rcases habout with habout | ⟨crew, habout⟩
    · rcases hmay _ habout with hmild | ⟨token, heq⟩
      · exact hmild.elim
      · cases heq
    · rcases hmay _ habout with hmild | ⟨token, heq⟩
      · exact .inl hmild
      · cases heq

theorem calm_of_leap (hleap : Leap x n s s') (hs' : s' ≠ .closing)
    (hothers : ∀ t, t ≠ State.mainTask → x.turn n = some t → Calm x n) : Calm x n := by
  cases hturn : x.turn n with
  | none => exact calm_of_idle hturn
  | some t =>
    by_cases ht : t = State.mainTask
    · exact hleap.calm (ht ▸ hturn) hs'
    · exact hothers t ht hturn

/-- Nobody but the main task parts anything before the worker is started. -/
theorem Before.calm (h : Before x outer n) (ht : t ≠ State.mainTask) (hturn : x.turn n = some t) : Calm x n := by
  obtain ⟨k, k', hk, hk', -⟩ := (Execution.stepped hturn).own
  exact calm_of_mild hturn hk hk' (h.others t k ht hk).doing

/-- **Until the worker is started**, all stays as it is. -/
theorem Before.succ (hx : IsSession x outer i) (hin : i ≤ n) (h : Before x outer n)
    (hnone : ∀ crew name c, x.turn n = some State.mainTask →
      ¬ (x.state n).IsAboutTo State.mainTask (.hire crew name (Job.input c))) : Before x outer (n + 1) := by
  obtain ⟨s, k, hk, hstands, hserves, hfresh, hgateway⟩ := h.main
  obtain ⟨k', hk'⟩ := x.core_succ hk
  obtain ⟨s', hstands', hleap⟩ := hx.main_succ hin hk hk' hstands
  have hcalm : s' ≠ .closing → Calm x n := fun hs' => calm_of_leap hleap hs' fun t ht hturn => h.calm ht hturn
  refine ⟨⟨s', k', hk', hstands', fun request heq => ?_, fun hs' => ?_, fun hs' => ?_⟩, fun u k₁ hu hk₁ => ?_⟩
  · subst heq
    cases hleap.reaches with
    | stays => exact hserves request rfl
    | serves hturn habout hbus => exact hnone _ _ _ hturn habout
  · refine (hcalm hs').uncancelled hx hin (hfresh ?_)
    rintro rfl
    cases hleap.reaches
    exact hs' rfl
  · subst hs'
    cases hleap.reaches with
    | stays => exact (hcalm nofun).mem_listeners (hgateway rfl)
    | gathers hedit => exact Execution.mem_listeners_succ.2 (.inl hedit)
  · refine hx.keeps_succ hin (world_confines around) (fun t name job hturn _ habout => ?_)
      (fun k => h.others u k hu) hk₁
    rcases starts_cases (Q := fun _ => IsMild) (fun _ _ => .inl) hk hstands h.others habout with
      ⟨c, rfl⟩ | ⟨rfl, -, crew, c, rfl, hhires⟩
    · exact heartbeat_mild c
    · exact absurd hhires (hnone crew name c hturn)

theorem mayAsk_cases {c : Kit} (u : TaskId) (op : Op app) (h : MayAsk t c u op) :
    IsMild op ∨ ∃ token, op = .cancel token :=
  h.imp_right fun h => ⟨_, h.2⟩

/-- **The worker is started** by the main task, once the parts have been put together. -/
theorem Before.after (hx : IsSession x outer i) (hin : i ≤ n) (h : Before x outer n) {crew : CrewId} {name : String}
    {c : Kit} (hturn : x.turn n = some t) (habout : (x.state n).IsAboutTo t (.hire crew name (Job.input c))) :
    c.bus = bus ∧ After x outer (x.state n).tasks.length c (n + 1) (n + 1) := by
  obtain ⟨s, k, hk, hstands, hserves, hfresh, hgateway⟩ := h.main
  obtain ⟨k', hk'⟩ := x.core_succ hk
  obtain ⟨s', hstands', hleap⟩ := hx.main_succ hin hk hk' hstands
  have hinput : t = State.mainTask ∧ s = .gathered := by
    rcases starts_cases (Q := fun _ => IsMild) (fun _ _ => .inl) hk hstands h.others (.inr ⟨crew, habout⟩) with
      ⟨c', heq⟩ | ⟨ht, hs, -⟩
    · cases heq
    · exact ⟨ht, hs⟩
  obtain ⟨rfl, rfl⟩ := hinput
  obtain ⟨hbus, rfl⟩ := hleap.hires crew name c hturn habout
  have hcalm : Calm x n := hleap.calm hturn nofun
  refine ⟨hbus, ⟨_, k', hk', hstands', .inl rfl⟩, fun _ => ?_, fun u k₁ hu hk₁ => ?_⟩
  · exact ⟨hcalm.uncancelled hx hin (hfresh nofun), hcalm.mem_listeners (hgateway rfl)⟩
  · refine hx.keeps_succ hin (mayAsk_confines _ c u) (fun t' name' job hturn' hnew habout' => ?_)
      (fun k₀ hk₀ => (h.others u k₀ hu hk₀).mono fun _ => .inl) hk₁
    rcases starts_cases (Q := fun _ => IsMild) (fun _ _ => .inl) hk hstands h.others habout' with
      ⟨c', rfl⟩ | ⟨rfl, -, crew', c', rfl, hhires⟩
    · exact (heartbeat_mild c').mono fun _ => .inl
    · -- A task is about to start one worker only.
      obtain ⟨next, calls, passes, hcore⟩ := habout
      obtain ⟨next', calls', passes', hcore'⟩ := hhires
      cases hcore.symm.trans hcore'
      exact hnew ▸ input_mayAsk u c

theorem mem_asked_succ {h : Nat} {op : Op app} (hhn : h ≤ n) (hmem : op ∈ x.asked t h n) :
    op ∈ x.asked t h (n + 1) := by
  rw [Execution.asked_trans hhn (Nat.le_succ n)]
  exact List.mem_append_left _ hmem

theorem mem_asked_of_about {h : Nat} {op : Op app} (hhn : h ≤ n) (hturn : x.turn n = some t)
    (habout : (x.state n).IsAboutTo t op) : op ∈ x.asked t h (n + 1) := by
  obtain ⟨next, calls, passes, hcore⟩ := habout
  rw [Execution.asked_trans hhn (Nat.le_succ n), Execution.asked_succ, Execution.askedBy, if_pos hturn, hcore]
  exact List.mem_append_right _ List.mem_cons_self

/-- **From then on**, all stays as it is until the worker asks for a shutdown. -/
theorem After.succ (hx : IsSession x outer i) (hin : i ≤ n) {c : Kit} {h : Nat} (hhn : h ≤ n)
    (hafter : After x outer t c h n) : After x outer t c h (n + 1) := by
  obtain ⟨s, k, hk, hstands, hfooting⟩ := hafter.main
  obtain ⟨k', hk'⟩ := x.core_succ hk
  obtain ⟨s', hstands', hleap⟩ := hx.main_succ hin hk hk' hstands
  have hfooting' : s' = .serving c.request ∨ s' = .closing ∧ .cancel c.request ∈ x.asked t h (n + 1) := by
    rcases hfooting with rfl | ⟨rfl, hasked⟩
    · cases hleap.reaches with
      | stays => exact .inl rfl
      | ends hcancelled =>
        refine .inr ⟨rfl, mem_asked_succ hhn ?_⟩
        by_contra hnone
        cases hcancelled.symm.trans ((hafter.quiet hnone).1 _)
    · cases hleap.reaches
      exact .inr ⟨rfl, mem_asked_succ hhn hasked⟩
  refine ⟨⟨s', k', hk', hstands', hfooting'⟩, fun hnone => ?_, fun u k₁ hu hk₁ => ?_⟩
  · obtain ⟨hfresh, hgateway⟩ := hafter.quiet fun hmem => hnone (mem_asked_succ hhn hmem)
    have hs' : s' ≠ .closing := by
      rintro rfl
      exact hnone (hfooting'.resolve_left nofun).2
    have hcalm : Calm x n := calm_of_leap hleap hs' fun u hu hturn => by
      obtain ⟨k₀, k₁, hk₀, hk₁, -⟩ := (Execution.stepped hturn).own
      refine calm_of_keeps hturn hk₀ hk₁ (hafter.others u k₀ hu hk₀).doing (fun token next hdoing hmay => ?_)
        fun b l hmay => ?_
      · obtain ⟨rfl, heq⟩ := hmay.resolve_left id
        obtain ⟨doing, calls, passes⟩ := k₀
        obtain rfl : doing = _ := hdoing
        cases heq
        exact hnone (mem_asked_of_about hhn hturn ⟨next, calls, passes, hk₀⟩)
      · cases (hmay.resolve_left id).2
    exact ⟨hcalm.uncancelled hx hin hfresh, hcalm.mem_listeners hgateway⟩
  · refine hx.keeps_succ hin (mayAsk_confines t c u) (fun t' name job hturn' _ habout => ?_)
      (fun k₀ => hafter.others u k₀ hu) hk₁
    rcases starts_cases mayAsk_cases hk hstands hafter.others habout with ⟨c', rfl⟩ | ⟨-, rfl, -⟩
    · exact (heartbeat_mild c').mono fun _ => .inl
    · rcases hfooting with heq | ⟨heq, -⟩ <;> cases heq

/-- The worker has been started, or it has not. -/
theorem IsSession.before_or_after (hx : IsSession x outer i) (hin : i ≤ n) :
    Before x outer n ∨ ∃ t c h, h ≤ n ∧ After x outer t c h n := by
  induction hin with
  | refl =>
    obtain ⟨passes, hbegins⟩ := hx.begins
    refine .inl ⟨⟨.building, _, hbegins, .runs session_treads, nofun, fun _ => hx.fresh, nofun⟩, fun u k hu hk => ?_⟩
    rw [hx.alone u k hu hk]
    exact Core.keeps_ended
  | @step n hin ih =>
    rcases ih with hbefore | ⟨t, c, h, hhn, hafter⟩
    · by_cases hhires : ∃ crew name c, x.turn n = some State.mainTask ∧
          (x.state n).IsAboutTo State.mainTask (.hire crew name (Job.input c))
      · obtain ⟨crew, name, c, hturn, habout⟩ := hhires
        exact .inr ⟨_, c, n + 1, Nat.le_refl _, (hbefore.after hx hin hturn habout).2⟩
      · refine .inl (hbefore.succ hx hin fun crew name c hturn habout => hhires ⟨crew, name, c, hturn, habout⟩)
    · exact .inr ⟨t, c, h, Nat.le_succ_of_le hhn, hafter.succ hx hin hhn⟩

/-- Nobody starts a worker of the kind twice. -/
theorem After.not_hires {c c' : Kit} {h : Nat} (hafter : After x outer t c h n) {crew : CrewId} {name : String} :
    ¬ (x.state n).IsAboutTo u (.hire crew name (Job.input c')) := by
  intro habout
  obtain ⟨s, k, hk, hstands, hfooting⟩ := hafter.main
  rcases starts_cases mayAsk_cases hk hstands hafter.others (.inr ⟨crew, habout⟩) with ⟨c', heq⟩ | ⟨-, rfl, -⟩
  · cases heq
  · rcases hfooting with heq | ⟨heq, -⟩ <;> cases heq

/-- **In a session without a signal the worker is on its own, and the gateway is there**, until the worker itself asks
for a shutdown. -/
theorem IsSession.worker (hx : IsSession x outer i) {h : Nat} (hih : i ≤ h) (hturn : x.turn h = some u) {crew : CrewId}
    {name : String} {c : Kit} (habout : (x.state h).IsAboutTo u (.hire crew name (Job.input c))) :
    (x.state (h + 1)).core (x.state h).tasks.length = some ⟨.running (doJob around (.input c)), [], []⟩ ∧
      Worker.HasGateway x (x.state h).tasks.length c (h + 1) ∧ Worker.IsQuiet x (x.state h).tasks.length c (h + 1) := by
  have hbefore : Before x outer h := (hx.before_or_after hih).resolve_right fun ⟨_, _, _, _, hafter⟩ =>
    hafter.not_hires habout
  obtain ⟨hbus, hstart⟩ := hbefore.after hx hih hturn habout
  have hafter : ∀ n, h + 1 ≤ n → After x outer (x.state h).tasks.length c (h + 1) n := by
    intro n hn
    induction hn with
    | refl => exact hstart
    | @step n hn ih => exact ih.succ hx (Nat.le_trans (Nat.le_succ_of_le hih) hn) hn
  refine ⟨State.core_hired (Execution.advance_of_turn hturn) habout, fun n hn _ hnone => ?_, fun n hn hnone => ?_⟩
  · rw [hbus]
    exact ((hafter n hn).quiet hnone).2
  · exact ((hafter n hn).quiet hnone).1 _

end Sessions

/-- **A process that runs the main program and to which no signal is sent** is such a session, whoever's turn it is. -/
theorem directed_isSession {buses : Nat} {memory : Memory} {moves : List Move} (hmoves : ∀ g, .signal g ∉ moves) :
    IsSession (Execution.directed (world around) buses session memory moves) [] 1 where
  begins := ⟨[], rfl⟩
  outer := nofun
  alone t k ht hk := by
    cases t with
    | zero => exact absurd rfl ht
    | succ t => cases hk
  fresh _ := rfl
  proper := Execution.directed_isProper
  finished n t hn hended := by
    obtain ⟨n, rfl⟩ := Nat.exists_eq_add_of_le' hn
    exact State.ended_move hended _
  idle _ := Execution.directed_tokens hmoves
  untold _ hn := (Execution.directed_atPeace hmoves hn).untold

/-- Whether the worker is started with an operation. -/
def startsWorker : Op app → Bool
  | .hire _ _ (Job.input _) => true
  | _ => false

/-- The main task takes one step after another until it has started the worker. -/
def starting : Execution (world typed) :=
  .directed (world typed) 1 session {} (List.replicate 132 (.step State.mainTask))

example : ∃ t c, (starting.state 133).core t = some ⟨.running (doJob typed (.input c)), [], []⟩ ∧
    Worker.HasGateway starting t c 133 ∧ Worker.IsQuiet starting t c 133 := by
  have hsession : IsSession starting [] 1 := directed_isSession fun g hg => by cases List.eq_of_mem_replicate hg
  have hasked : (starting.askedBy State.mainTask 132).any startsWorker = true := by decide +kernel
  have hturn : starting.turn 132 = some State.mainTask := by decide +kernel
  obtain ⟨op, hop, hstarts⟩ := (Option.any_eq_true ..).1 hasked
  obtain ⟨next, calls, passes, hcore, -⟩ := Execution.operates_of_askedBy hop
  unfold startsWorker at hstarts
  split at hstarts
  · exact ⟨_, _, hsession.worker (by decide) hturn ⟨next, calls, passes, hcore⟩⟩
  · cases hstarts

end Orchestra.Console
