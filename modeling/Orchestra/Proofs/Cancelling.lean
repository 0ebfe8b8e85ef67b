import Orchestra.Proofs.Winding

/-!
# Workers are told last

An ensemble has a runtime token, and each of its modules one that has been made from it, which all workers of
the module share.  A shutdown cancels the runtime token once its hooks have run and the bus has been told, and
the others are cancelled with it.

* `State.parentOf`, `State.Below` — the token from which a token has been made, and what is below a token;
* `State.isCancelled_cancel_iff` — a cancellation reaches what is below the token, and nothing else;
* `State.Descends` — a token that has been made from one without a parent is cancelled with that one;
* `Execution.IsSteady` — a proper execution in which, when it is nobody's turn, no more happens to tokens than
  that they are cancelled; `State.run_cancels`, `Execution.directed_isSteady` — so it is with the scheduler,
  and with given moves;
* `madeIn`, `Blueprint.build_made` — the tokens that exchanges make, and those that building makes;
* `Returns.descends` — every module's token descends from the runtime token;
* `workers_told_last` — no token is cancelled before the hooks have run, and all of them are when the wait for
  the workers begins;
* `workers_told_before_hooks` — but not if a shutdown has come before the launch.
-/

namespace Orchestra

open Machine

variable {A : Application}

namespace Machine

namespace State

variable {s s' : State A} {t : TaskId} {root token other : TokenId} {parent : Option TokenId}

/-! ### Where tokens come from -/

/-- The token, if any, from which a token has been made, if there is that one. -/
def parentOf (s : State A) (token : TokenId) : Option (Option TokenId) :=
  (s.tokens[token]?).map Token.parent

theorem lt_of_parentOf (h : s.parentOf token = some parent) : token < s.tokens.length := by
  obtain ⟨k, hk, -⟩ := Option.map_eq_some_iff.1 h
  exact (List.getElem?_eq_some_iff.1 hk).1

theorem parentOf_congr (h : s'.tokens = s.tokens) (token : TokenId) :
    s'.parentOf token = s.parentOf token := by
  rw [parentOf, parentOf, h]

theorem bind_parent_eq_some_iff {p : TokenId} :
    (s.tokens[token]?).bind Token.parent = some p ↔ s.parentOf token = some (some p) := by
  rw [parentOf]
  cases s.tokens[token]? <;> simp

/-- A token has been made from another one, or from one made from that, and so on. -/
inductive Below (s : State A) (root : TokenId) : TokenId → Prop where
  | made {token : TokenId} : s.parentOf token = some (some root) → Below s root token
  | further {token parent : TokenId} : s.parentOf token = some (some parent) → Below s root parent →
      Below s root token

/-- Every token has been made from one that had been made before. -/
def IsForest (s : State A) : Prop := ∀ token parent, s.parentOf token = some (some parent) → parent < token

theorem Below.lt (h : s.Below root token) : token < s.tokens.length := by
  cases h with
  | made hparent => exact lt_of_parentOf hparent
  | further hparent _ => exact lt_of_parentOf hparent

/-- A token that has been made from no other is below none. -/
theorem not_below_of_origin (h : s.parentOf token = some none) : ¬ s.Below root token := by
  rintro (hparent | ⟨hparent, -⟩) <;> cases h.symm.trans hparent

theorem below_of_isBelow {steps : Nat} (h : isBelow s.tokens root steps token = true) : s.Below root token := by
  induction steps generalizing token with
  | zero => cases h
  | succ steps ih =>
    rw [isBelow] at h
    split at h
    · cases h
    · next parent hparent =>
      rcases Bool.or_eq_true_iff.1 h with heq | hbelow
      · exact .made (of_decide_eq_true heq ▸ bind_parent_eq_some_iff.1 hparent)
      · exact .further (bind_parent_eq_some_iff.1 hparent) (ih hbelow)

/-- With as many steps as there are tokens nothing is overlooked. -/
theorem Below.isBelow (h : s.Below root token) (hforest : s.IsForest) {steps : Nat} (hsteps : token < steps) :
    State.isBelow s.tokens root steps token = true := by
  induction h generalizing steps with
  | made hparent =>
    obtain ⟨steps, rfl⟩ := Nat.exists_eq_add_one_of_ne_zero (Nat.ne_zero_of_lt hsteps)
    rw [State.isBelow, bind_parent_eq_some_iff.2 hparent]
    simp
  | @further token parent hparent _ ih =>
    obtain ⟨steps, rfl⟩ := Nat.exists_eq_add_one_of_ne_zero (Nat.ne_zero_of_lt hsteps)
    have hlt := hforest token parent hparent
    have hbelow : State.isBelow s.tokens root steps parent = true :=
      ih (Nat.lt_of_lt_of_le hlt (Nat.le_of_lt_succ hsteps))
    rw [State.isBelow, bind_parent_eq_some_iff.2 hparent]
    simp [hbelow]

theorem below_of_mem (h : token ∈ s.descendantsOf root) : s.Below root token := by
  rw [descendantsOf, List.mem_reverse, List.mem_filter] at h
  exact below_of_isBelow h.2

/-- What has been made from a token is among those that are cancelled with it. -/
theorem mem_descendantsOf_of_made (h : s.parentOf token = some (some root)) : token ∈ s.descendantsOf root := by
  have hlt := lt_of_parentOf h
  obtain ⟨steps, hsteps⟩ := Nat.exists_eq_add_one_of_ne_zero (Nat.ne_zero_of_lt hlt)
  rw [descendantsOf, List.mem_reverse, List.mem_filter, List.mem_range]
  refine ⟨hlt, ?_⟩
  rw [hsteps, isBelow, bind_parent_eq_some_iff.2 h]
  simp

/-- And so is what is below it. -/
theorem mem_descendantsOf (hforest : s.IsForest) : token ∈ s.descendantsOf root ↔ s.Below root token := by
  refine ⟨below_of_mem, fun h => ?_⟩
  rw [descendantsOf, List.mem_reverse, List.mem_filter, List.mem_range]
  exact ⟨h.lt, h.isBelow hforest h.lt⟩

/-- Cancelling a token changes nothing of where tokens come from. -/
theorem map_parent_modify (tokens : List Token) (other token : TokenId) :
    ((tokens.modify other cancelledToken)[token]?).map Token.parent
      = (tokens[token]?).map Token.parent := by
  by_cases hother : other = token
  · subst hother
    cases htoken : tokens[other]? with
    | none => simp [htoken]
    | some k => simp [htoken, cancelledToken]
  · rw [List.getElem?_modify_ne _ _ hother]

theorem map_parent_foldl (ks : List TokenId) (tokens : List Token) (token : TokenId) :
    ((ks.foldl (fun tokens k => tokens.modify k cancelledToken) tokens)[token]?).map Token.parent
      = (tokens[token]?).map Token.parent := by
  induction ks generalizing tokens with
  | nil => rfl
  | cons k rest ih => rw [List.foldl_cons, ih, map_parent_modify]

theorem parentOf_cancel (s : State A) (other token : TokenId) :
    (s.cancel other).parentOf token = s.parentOf token := by
  rw [parentOf, cancel_tokens]
  split
  · rfl
  · rw [map_parent_modify, map_parent_foldl, parentOf]

/-! ### Whom a cancellation leaves alone -/

theorem cancelledIn_modify_of_ne {tokens : List Token} (h : other ≠ token) :
    cancelledIn (tokens.modify other cancelledToken) token = cancelledIn tokens token := by
  rw [cancelledIn, cancelledIn, List.getElem?_modify_ne _ _ h]

theorem cancelledIn_foldl_of_not_mem {ks : List TokenId} {tokens : List Token} (h : token ∉ ks) :
    cancelledIn (ks.foldl (fun tokens k => tokens.modify k cancelledToken) tokens) token
      = cancelledIn tokens token := by
  induction ks generalizing tokens with
  | nil => rfl
  | cons k rest ih =>
    rw [List.mem_cons, not_or] at h
    obtain ⟨hk, hrest⟩ := h
    rw [List.foldl_cons, ih hrest, cancelledIn_modify_of_ne (Ne.symm hk)]

/-- **A cancellation leaves alone whatever is not below the token.** -/
theorem isCancelled_cancel_of_not_below (hne : token ≠ other) (hbelow : ¬ s.Below other token) :
    (s.cancel other).isCancelled token = s.isCancelled token := by
  show cancelledIn (s.cancel other).tokens token = cancelledIn s.tokens token
  rw [cancel_tokens]
  split
  · rfl
  · rw [cancelledIn_modify_of_ne (Ne.symm hne)]
    exact cancelledIn_foldl_of_not_mem fun hmem => hbelow (below_of_mem hmem)

theorem cancelledIn_foldl_of_mem {ks : List TokenId} {tokens : List Token} (hmem : token ∈ ks)
    (h : token < tokens.length) :
    cancelledIn (ks.foldl (fun tokens k => tokens.modify k cancelledToken) tokens) token = true := by
  induction ks generalizing tokens with
  | nil => cases hmem
  | cons k rest ih =>
    rw [List.foldl_cons]
    rcases List.mem_cons.1 hmem with rfl | hrest
    · exact cancelledIn_foldl (cancelledIn_modify_self h)
    · exact ih hrest (by rwa [List.length_modify])

theorem isCancelled_cancel_of_mem (hfree : s.isCancelled other = false) (hmem : token ∈ s.descendantsOf other) :
    (s.cancel other).isCancelled token = true := by
  show cancelledIn (s.cancel other).tokens token = true
  rw [cancel_tokens, if_neg (by rw [hfree]; exact Bool.false_ne_true)]
  exact cancelledIn_modify (cancelledIn_foldl_of_mem hmem (below_of_mem hmem).lt) other

/-- **A cancellation reaches everything below the token**, and apart from the token itself nothing else. -/
theorem isCancelled_cancel_iff (hforest : s.IsForest) (hfree : s.isCancelled other = false)
    (hne : token ≠ other) :
    (s.cancel other).isCancelled token = true ↔ s.isCancelled token = true ∨ s.Below other token := by
  by_cases hbelow : s.Below other token
  · exact iff_of_true (isCancelled_cancel_of_mem hfree ((mem_descendantsOf hforest).2 hbelow)) (.inr hbelow)
  · rw [isCancelled_cancel_of_not_below hne hbelow]
    exact ⟨.inl, fun h => h.resolve_right hbelow⟩

/-! ### Descent -/

theorem parentOf_of_isPrefix (h : s.tokens <+: s'.tokens) (hparent : s.parentOf token = some parent) :
    s'.parentOf token = some parent := by
  obtain ⟨rest, hrest⟩ := h
  rw [parentOf, ← hrest, List.getElem?_append_left (lt_of_parentOf hparent)]
  exact hparent

/-- Where a token comes from does not change, whatever step is taken. -/
theorem Effect.parentOf (h : s.Effect t s') (hparent : s.parentOf token = some parent) :
    s'.parentOf token = some parent := by
  rcases h.tokens_cases with hprefix | ⟨other, -, htokens⟩
  · exact parentOf_of_isPrefix hprefix hparent
  · rw [parentOf_congr htokens, parentOf_cancel, hparent]

/-- A token has been made from one that has no parent, and is cancelled if that one is. -/
structure Descends (s : State A) (root token : TokenId) : Prop where
  origin : s.parentOf root = some none
  made : s.parentOf token = some (some root)
  cancelled : s.isCancelled root = true → s.isCancelled token = true

theorem Descends.congr (h : s.Descends root token) (hsame : s'.tokens = s.tokens) :
    s'.Descends root token := by
  refine ⟨(parentOf_congr hsame root).trans h.origin, (parentOf_congr hsame token).trans h.made, ?_⟩
  rw [isCancelled_congr hsame, isCancelled_congr hsame]
  exact h.cancelled

theorem Descends.cancel (h : s.Descends root token) (other : TokenId) :
    (s.cancel other).Descends root token := by
  refine ⟨(parentOf_cancel s other root).trans h.origin,
    (parentOf_cancel s other token).trans h.made, fun hcancelled => ?_⟩
  cases hroot : s.isCancelled root with
  | true => exact isCancelled_cancel (h.cancelled hroot) other
  | false =>
    -- The root has been cancelled by itself, since it has no parent.
    by_cases hother : root = other
    · subst hother
      exact isCancelled_cancel_of_mem hroot (mem_descendantsOf_of_made h.made)
    · rw [isCancelled_cancel_of_not_below hother (not_below_of_origin h.origin), hroot] at hcancelled
      cases hcancelled

/-- **Descent stays**, whatever step is taken. -/
theorem Effect.descends (h : s.Effect t s') (hdescends : s.Descends root token) :
    s'.Descends root token := by
  refine ⟨h.parentOf hdescends.origin, h.parentOf hdescends.made, ?_⟩
  rcases h.tokens_cases with hprefix | ⟨other, -, htokens⟩
  · rw [isCancelled_of_isPrefix hprefix (lt_of_parentOf hdescends.origin),
      isCancelled_of_isPrefix hprefix (lt_of_parentOf hdescends.made)]
    exact hdescends.cancelled
  · exact ((hdescends.cancel other).congr htokens).cancelled

/-! ### Aside from the tasks' steps -/

/-- Nothing happens to tokens but that some are cancelled one after another. -/
def Cancels (s s' : State A) : Prop :=
  ∃ ks : List TokenId, s'.tokens = (ks.foldl (fun s k => s.cancel k) s).tokens

theorem Cancels.of_tokens (h : s'.tokens = s.tokens) : s.Cancels s' := ⟨[], h⟩

theorem foldl_cancel_congr (h : s'.tokens = s.tokens) (ks : List TokenId) :
    (ks.foldl (fun s k => s.cancel k) s').tokens = (ks.foldl (fun s k => s.cancel k) s).tokens := by
  induction ks generalizing s s' with
  | nil => exact h
  | cons k rest ih => exact ih (cancel_tokens_congr h k)

theorem Cancels.trans {s₁ : State A} (h : s.Cancels s₁) (h' : s₁.Cancels s') : s.Cancels s' := by
  obtain ⟨ks, hks⟩ := h
  obtain ⟨ks', hks'⟩ := h'
  refine ⟨ks ++ ks', ?_⟩
  rw [hks', foldl_cancel_congr hks, List.foldl_append]

theorem Cancels.parentOf (h : s.Cancels s') (token : TokenId) : s'.parentOf token = s.parentOf token := by
  obtain ⟨ks, hks⟩ := h
  rw [parentOf_congr hks]
  clear hks
  induction ks generalizing s with
  | nil => rfl
  | cons k rest ih => rw [List.foldl_cons, ih, parentOf_cancel]

theorem Cancels.descends (h : s.Cancels s') (hdescends : s.Descends root token) :
    s'.Descends root token := by
  obtain ⟨ks, hks⟩ := h
  refine Descends.congr ?_ hks
  clear hks
  induction ks generalizing s with
  | nil => exact hdescends
  | cons k rest ih => exact ih (hdescends.cancel k)

theorem park_cancels (t : TaskId) (s : State A) : s.Cancels (s.park t) := by
  refine .of_tokens ?_
  unfold park
  split
  · split <;> rfl
  · rfl

theorem deliverSignal_cancels (g : Signal) (s : State A) : s.Cancels (s.deliverSignal g) := by
  refine .of_tokens ?_
  unfold deliverSignal
  split
  · exact (wakeAll_spares _ _).tokens
  · rfl

theorem tick_cancels (h : s.tick = some s') : s.Cancels s' :=
  tick_steps Cancels.trans (fun _ _ _ => .of_tokens rfl) (fun s t => .of_tokens (wake_spares s t).tokens)
    (fun s g => deliverSignal_cancels g s) (fun _ token => ⟨[token], rfl⟩) h

theorem begin_cancels (t : TaskId) (s : State A) : s.Cancels (s.begin t) := by
  rcases begin_cases t s with hsame | hends
  · exact .of_tokens (congrArg State.tokens hsame)
  · exact .of_tokens hends.tokens

/-- **What the scheduler does aside from the tasks' steps** is to cancel tokens at most. -/
theorem run_cancels (w : World A) (fuel : Nat) (current : Option TaskId) (s : State A) :
    Relation.ReflTransGen (fun s s' => s.Cancels s' ∨ ∃ t, s.advance w t = some s') s
      (s.run w fuel current) :=
  run_steps (fun hadvance => .inr ⟨_, hadvance⟩) (fun t s => .inl (park_cancels t s))
    (fun _ _ => .inl (.of_tokens rfl)) (fun t s => .inl (begin_cancels t s))
    (fun htick => .inl (tick_cancels htick)) fuel current s

theorem move_cancels {w : World A} {m : Move} (h : s.turnOf w m = none) : s.Cancels ((s.move w m).getD s) :=
  move_aside (fun _ => .of_tokens rfl) park_cancels tick_cancels deliverSignal_cancels h

end State

/-! ### Steady executions -/

/-- A proper execution in which, when it is nobody's turn, no more happens to tokens than that some are
cancelled. -/
structure Execution.IsSteady {w : World A} (x : Execution w) : Prop where
  proper : x.IsProper
  cancels : ∀ n, x.turn n = none → (x.state n).Cancels (x.state (n + 1))

namespace Execution

variable {w : World A} {x : Execution w} {t : TaskId} {calls : Calls A} {root token : TokenId}
  {tr : List (Exchange A)} {i j m n : Nat}

theorem directed_isSteady {buses : Nat} {p : Program A Outcome} {memory : A.Memory} {moves : List Move} :
    (Execution.directed w buses p memory moves).IsSteady := by
  refine ⟨directed_isProper, fun n hturn => ?_⟩
  cases n with
  | zero => exact .of_tokens rfl
  | succ n => exact State.move_cancels hturn

/-- Where a token comes from does not change. -/
theorem IsSteady.parentOf (hx : x.IsSteady) (hij : i ≤ j) {parent : Option TokenId}
    (h : (x.state i).parentOf token = some parent) : (x.state j).parentOf token = some parent := by
  induction hij with
  | refl => exact h
  | @step n _ ih =>
    cases hturn : x.turn n with
    | none => rw [(hx.cancels n hturn).parentOf, ih]
    | some t => exact (State.advance_effect (advance_of_turn hturn)).parentOf ih

/-- **Descent stays.** -/
theorem IsSteady.descends (hx : x.IsSteady) (hij : i ≤ j) (h : (x.state i).Descends root token) :
    (x.state j).Descends root token := by
  induction hij with
  | refl => exact h
  | @step n _ ih =>
    cases hturn : x.turn n with
    | none => exact (hx.cancels n hturn).descends ih
    | some t => exact (State.advance_effect (advance_of_turn hturn)).descends ih

/-- A new token has been made from the given one. -/
theorem Answers.parentOf {parent : Option TokenId} (h : x.Answers t calls ⟨.newToken parent, token⟩ m n) :
    (x.state (n + 1)).parentOf token = some parent := by
  obtain ⟨rfl, htokens⟩ := h.newToken_tokens
  rw [State.parentOf, htokens, List.getElem?_concat_length]
  rfl

/-- A token made from one without a parent descends from it. -/
theorem Answers.descends (h : x.Answers t calls ⟨.newToken (some root), token⟩ m n)
    (horigin : (x.state n).parentOf root = some none) : (x.state (n + 1)).Descends root token := by
  obtain ⟨-, htokens⟩ := h.newToken_tokens
  have hprefix : (x.state n).tokens <+: (x.state (n + 1)).tokens := htokens ▸ List.prefix_append _ _
  refine ⟨State.parentOf_of_isPrefix hprefix horigin, h.parentOf, fun hroot => ?_⟩
  rw [State.isCancelled_of_isPrefix hprefix (State.lt_of_parentOf horigin)] at hroot
  rw [h.newToken.2, Option.map_some, Option.getD_some, hroot]

end Execution

end Machine

/-! ### The tokens of an ensemble -/

/-- The token that an exchange makes. -/
def Exchange.made? : Exchange A → Option TokenId
  | ⟨.newToken _, token⟩ => some token
  | _ => none

/-- The tokens that exchanges make, in order. -/
def madeIn (tr : List (Exchange A)) : List TokenId := tr.filterMap Exchange.made?

theorem madeIn_cons (y : Exchange A) (tr : List (Exchange A)) :
    madeIn (y :: tr) = y.made?.toList ++ madeIn tr := by
  rw [madeIn, List.filterMap_cons]
  cases y.made? <;> rfl

theorem madeIn_append (tr tr' : List (Exchange A)) : madeIn (tr ++ tr') = madeIn tr ++ madeIn tr' :=
  List.filterMap_append

theorem Bus.register_made {cast : Cast} {bus : BusId} {l : ListenerId} {tr : List (Exchange A)}
    {changed : Bool} (h : Program.Run (register cast bus l) tr changed) : madeIn tr = [] := by
  obtain ⟨answer, tr, rfl, hrecord⟩ := Program.run_ask_bind_iff.1 h
  cases answer with
  | true =>
    obtain ⟨_, tr, rfl, hend⟩ := Program.run_ask_bind_iff.1 hrecord
    obtain ⟨rfl, -⟩ := Program.run_pure_iff.1 hend
    rfl
  | false =>
    obtain ⟨rfl, -⟩ := Program.run_pure_iff.1 hrecord
    rfl

namespace Blueprint

variable {cast : Cast} {bus : BusId} {a : Blueprint} {tr : List (Exchange A)}

theorem registerAll_made {ls : List ListenerId}
    (h : Program.Run (registerAll cast bus ls) tr ()) : madeIn tr = [] := by
  induction ls generalizing tr with
  | nil =>
    obtain ⟨rfl, -⟩ := Program.run_pure_iff.1 h
    rfl
  | cons l rest ih =>
    obtain ⟨first, changed, later, rfl, hfirst, hrest⟩ := Program.run_bind_iff.1 h
    rw [madeIn_append, Bus.register_made hfirst, ih hrest, List.nil_append]

theorem fillSlots_made {types : TypeCatalogue} {runtime request : TokenId} {crew : CrewId}
    {modules : List ListenerId} {slots slots' : List Slot}
    (h : Program.Run (fillSlots cast bus types runtime request crew modules slots) tr (.ok slots')) :
    slots'.map (fun s => s.kit.token) = slots.map (fun s => s.kit.token) ++ madeIn tr := by
  induction modules generalizing slots tr with
  | nil =>
    obtain ⟨rfl, hslots⟩ := Program.run_pure_iff.1 h
    rw [Except.ok.inj hslots]
    exact (List.append_nil _).symm
  | cons m rest ih =>
    rw [fillSlots] at h
    split at h
    · cases (Program.run_pure_iff.1 h).2
    obtain ⟨token, _, rfl, hregister⟩ := Program.run_ask_bind_iff.1 h
    obtain ⟨first, changed, _, rfl, hfirst, hrecord⟩ := Program.run_bind_iff.1 hregister
    obtain ⟨_, later, rfl, hrest⟩ := Program.run_ask_bind_iff.1 hrecord
    rw [ih hrest, List.map_append, madeIn_cons, madeIn_append, Bus.register_made hfirst, madeIn_cons,
      List.append_assoc]
    rfl

/-- **Building makes the runtime token, the one for requests, and one for each module**, one after another. -/
theorem build_made {e : Ensemble} (h : Program.Run (a.build cast bus) tr (.ok e)) :
    madeIn tr = e.runtime :: e.request :: e.slots.map fun s => s.kit.token := by
  unfold build at h
  split at h
  · simp at h
  · obtain ⟨runtime, _, rfl, hrequest⟩ := Program.run_ask_bind_iff.1 h
    obtain ⟨request, _, rfl, hcrew⟩ := Program.run_ask_bind_iff.1 hrequest
    obtain ⟨crew, _, rfl, hslots⟩ := Program.run_ask_bind_iff.1 hcrew
    obtain ⟨first, filled, later, rfl, hfill, hregister⟩ := Program.run_bind_iff.1 hslots
    cases filled with
    | error refusal => cases (Program.run_pure_iff.1 hregister).2
    | ok filled =>
      obtain ⟨registered, _, _, rfl, hregistered, hreturn⟩ := Program.run_bind_iff.1 hregister
      obtain ⟨rfl, he⟩ := Program.run_pure_iff.1 hreturn
      obtain rfl := Except.ok.inj he
      rw [madeIn_cons, madeIn_cons, madeIn_cons, madeIn_append, madeIn_append,
        registerAll_made hregistered, fillSlots_made hfill]
      exact congrArg _ (congrArg _ (List.append_nil _))

end Blueprint

namespace Machine.Execution

variable {w : World A} {x : Execution w} {t : TaskId} {calls : Calls A} {tr : List (Exchange A)}
  {i j n : Nat} {a : Blueprint} {cast : Cast} {bus : BusId} {e : Ensemble}
  {k : Except LaunchFailure Ensemble → Program A Outcome}

/-- Every new token comes after the tokens there are. -/
theorem Through.made (hx : x.IsProper) (h : x.Through t calls tr i j) :
    (madeIn tr).Pairwise (· < ·) ∧ ∀ token ∈ madeIn tr, (x.state i).tokens.length ≤ token := by
  induction h with
  | nil => exact ⟨.nil, nofun⟩
  | @cons y tr i m n j him hy hrest ih =>
    obtain ⟨hpairwise, hlater⟩ := ih
    have hlength : (x.state i).tokens.length ≤ (x.state n).tokens.length :=
      hx.length_mono (Nat.le_trans him hy.le)
    have hbeyond : ∀ token ∈ madeIn tr, (x.state i).tokens.length ≤ token := by
      intro token htoken
      exact Nat.le_trans hlength (Nat.le_trans (hx.length_succ n) (hlater token htoken))
    rw [madeIn_cons]
    obtain ⟨op, answer⟩ := y
    cases op with
    | newToken parent =>
      obtain ⟨rfl, htokens⟩ := hy.newToken_tokens
      refine ⟨List.pairwise_cons.2 ⟨fun token htoken => ?_, hpairwise⟩, fun token htoken => ?_⟩
      · have hnext := hlater token htoken
        rw [htokens, List.length_append] at hnext
        exact hnext
      · rcases List.mem_cons.1 htoken with rfl | hmem
        · exact hlength
        · exact hbeyond token hmem
    | _ => exact ⟨hpairwise, hbeyond⟩

/-- **The tokens of an ensemble that has been built are different from each other.** -/
theorem Returns.nodup_tokens (hx : x.IsProper)
    (h : x.Returns t calls (a.build cast bus) k i n tr (.ok e)) : e.tokens.Nodup := by
  have hpairwise := (h.through.made hx).1
  rw [Blueprint.build_made h.run] at hpairwise
  have hsublist : e.tokens.Sublist (e.runtime :: e.request :: e.slots.map fun s => s.kit.token) :=
    .cons_cons _ (List.sublist_cons_self _ _)
  exact (hpairwise.sublist hsublist).imp Nat.ne_of_lt

/-- The runtime token has been made from no other. -/
theorem Returns.origin (hx : x.IsSteady) (h : x.Returns t calls (a.build cast bus) k i n tr (.ok e))
    (hnj : n ≤ j) : (x.state j).parentOf e.runtime = some none := by
  obtain ⟨-, rest, rfl, -⟩ := Blueprint.build_asked h.run
  cases h.through with
  | @cons _ _ _ m₀ n₀ _ hm₀ hruntime hrest =>
    have hle := hrest.le
    exact hx.parentOf (by omega) hruntime.parentOf

/-- **Every module's token descends from the runtime token**, once the ensemble has been built. -/
theorem Returns.descends (hx : x.IsSteady)
    (h : x.Returns t calls (a.build cast bus) k i n tr (.ok e)) (hnj : n ≤ j) :
    ∀ s ∈ e.slots, (x.state j).Descends e.runtime s.kit.token := by
  obtain ⟨-, rest, rfl, hequipped⟩ := Blueprint.build_asked h.run
  intro s hs
  cases h.through with
  | @cons _ _ _ m₀ n₀ _ hm₀ hruntime hrest =>
    obtain ⟨hasked, -⟩ := hequipped s hs
    obtain ⟨m, n', hm, hn', hanswers⟩ := hrest.answers hasked
    have hle := hanswers.le
    exact hx.descends (by omega) (hanswers.descends (hx.parentOf (by omega) hruntime.parentOf))

/-- A task cancels nothing with a step on its way through a program that does not. -/
theorem IsStepOf.not_cancels {α : Type} {p : Program A α} {P : Op A → Prop} (h : x.IsStepOf p n)
    (hp : p.Only P) (hcancel : ∀ token, ¬ P (.cancel token)) : ¬ x.Cancels e n := by
  obtain ⟨t, calls, next, i, hamid, hown⟩ := h
  exact hamid.not_cancels hp hown hcancel e

/-- Once the runtime token has been cancelled, all tokens are cancelled for good. -/
theorem Returns.cancelled (hx : x.IsSteady) (h : x.Returns t calls (a.build cast bus) k i n tr (.ok e))
    (hnj : n ≤ j) (hruntime : (x.state j).isCancelled e.runtime = true) {m : Nat} (hjm : j ≤ m) :
    ∀ token ∈ e.tokens, (x.state m).isCancelled token = true := by
  have hcancelled := hx.proper.isCancelled_mono hjm hruntime
  intro token htoken
  rcases Ensemble.mem_tokens.1 htoken with rfl | ⟨s, hs, rfl⟩
  · exact hcancelled
  · exact (h.descends hx (Nat.le_trans hnj hjm) s hs).cancelled hcancelled

/-- A module that cancels its own token leaves all others of the ensemble alone. -/
theorem Returns.spares (hx : x.IsSteady) (h : x.Returns t calls (a.build cast bus) k i n tr (.ok e))
    (hnj : n ≤ j) {u : TaskId} (hturn : x.turn j = some u) {s : Slot} (hs : s ∈ e.slots)
    (habout : (x.state j).IsAboutTo u (.cancel s.kit.token)) {token : TokenId} (htoken : token ∈ e.tokens)
    (hne : token ≠ s.kit.token) : (x.state (j + 1)).isCancelled token = (x.state j).isCancelled token := by
  have horigin := h.origin hx hnj
  have hdescends := h.descends hx hnj
  -- A module's token has been made from the runtime token, which has been made from no other.
  have hbelow : token < (x.state j).tokens.length ∧ ¬ (x.state j).Below s.kit.token token := by
    rcases Ensemble.mem_tokens.1 htoken with rfl | ⟨s', hs', rfl⟩
    · exact ⟨State.lt_of_parentOf horigin, State.not_below_of_origin horigin⟩
    · have hmade := (hdescends s' hs').made
      refine ⟨State.lt_of_parentOf hmade, ?_⟩
      rintro (hparent | ⟨hparent, hbelow⟩)
      · have hsame : e.runtime = s.kit.token := Option.some.inj (Option.some.inj (hmade.symm.trans hparent))
        rw [hsame, (hdescends s hs).made] at horigin
        cases horigin
      · obtain rfl := Option.some.inj (Option.some.inj (hmade.symm.trans hparent))
        exact State.not_below_of_origin horigin hbelow
  rcases (State.advance_effect (advance_of_turn hturn)).tokens_cases with hprefix | ⟨k, habout', htokens⟩
  · exact State.isCancelled_of_isPrefix hprefix hbelow.1
  · obtain ⟨_, _, _, hcore⟩ := habout
    obtain ⟨_, _, _, hcore'⟩ := habout'
    have hsame := Option.some.inj (hcore.symm.trans hcore')
    obtain ⟨hop, -⟩ := Program.perform.inj (Doing.running.inj (congrArg Core.doing hsame))
    obtain rfl := Op.cancel.inj hop
    rw [State.isCancelled_congr htokens]
    exact State.isCancelled_cancel_of_not_below hne hbelow.2

end Machine.Execution

/-! ### The main result -/

/-- What is left of a shutdown once the workers have been told to stop: they are waited for, and everybody
leaves. -/
def Ensemble.standDown (cast : Cast) (e : Ensemble) (c : Closing) :
    Program A (ShutdownSummary × Ensemble) := do
  let stuck ← Crew.dissolve e.crew e.config.grace
  leave cast { e with slots := c.slots } c.failures stuck

theorem Ensemble.shutdown_eq_standDown {cast : Cast} {name : String} {e : Ensemble} :
    e.shutdown (A := A) cast name
      = runClosing cast name e >>= fun c => .ask (.cancel e.runtime) >>= fun _ => standDown cast e c :=
  shutdown_eq_runClosing

variable {w : World A}

/-- **Workers are told to stop after the hooks, all of them at once, and for good.**  From building on no token
of an ensemble is cancelled, whatever is asked of it, until a shutdown has run its hooks and told the bus, unless
somebody else has cancelled one of them, or another shutdown has, which has come before the launch if there are
hooks to run.  When the shutdown begins to wait for the workers, all tokens are cancelled, and they stay so.  A
module that cancels its own token cancels no other token of the ensemble. -/
theorem workers_told_last (x : Execution w) (hx : x.IsSteady) (cast : Cast) (name : String)
    -- Task `t` has built the ensemble,
    (a : Blueprint) (bus : BusId) (k : Except LaunchFailure Ensemble → Program A Outcome) (t : TaskId)
    (calls : Calls A) (i n : Nat) (tr : List (Exchange A)) (e : Ensemble)
    (hbuild : x.Returns t calls (a.build cast bus) k i n tr (.ok e))
    -- something has been asked of it,
    (T : List (Request × List (Exchange A))) (e' : Ensemble) (hstory : Story cast name e T e')
    -- and task `t'` shuts it down.
    (next : ShutdownSummary × Ensemble → Program A Outcome) (t' : TaskId) (calls' : Calls A)
    (passes : List Pass) (i' j : Nat) (hlater : n ≤ i') (hij : i' ≤ j) (huncut : x.Uncut t' calls'.length i' j)
    (hk : (x.state i').core t' = some ⟨.running (e'.shutdown cast name >>= next), calls', passes⟩) :
    -- A hook is due only if every shutdown until then has come before the launch.
    (∀ s ∈ e'.slots, s.isDue = true → IsOngoing T) ∧
    -- While the hooks are run and the bus is told, no token has been cancelled, if nothing but building, a launch
    -- or this shutdown itself has cancelled one until then;
    (∀ m, i' ≤ m → m ≤ j → (∀ k, i' ≤ k → k < m → x.Amid t' calls' (e'.runClosing cast name)
        (fun c => .ask (.cancel e.runtime) >>= fun _ => e'.standDown cast c >>= next) i' k) →
      (∀ k, i ≤ k → k < m → x.Cancels e k →
        x.IsStepOf (a.build cast bus) k ∨ (∃ e₁ : Ensemble, x.IsStepOf (e₁.launch cast name) k) ∨
          i' ≤ k ∧ x.IsOwn t' calls'.length k) →
      ∀ m', n ≤ m' → m' ≤ m → ∀ token ∈ e.tokens, (x.state m').isCancelled token = false) ∧
    -- and that is still going on,
    ((∀ m, i' ≤ m → m ≤ j → x.Amid t' calls' (e'.runClosing cast name)
        (fun c => .ask (.cancel e.runtime) >>= fun _ => e'.standDown cast c >>= next) i' m) ∨
    -- or it is done, and the workers are about to be told;
    ∃ n₁ tr₁ c, n₁ ≤ j ∧ x.Returns t' calls' (e'.runClosing cast name)
        (fun c => .ask (.cancel e.runtime) >>= fun _ => e'.standDown cast c >>= next) i' n₁ tr₁ c ∧
      ((∀ m, n₁ ≤ m → m ≤ j → x.Amid t' calls' (.ask (.cancel e.runtime))
        (fun _ => e'.standDown cast c >>= next) n₁ m) ∨
      -- then they are waited for, and all tokens are cancelled from then on.
      ∃ n₂ tr₂, n₂ ≤ j ∧ x.Returns t' calls' (.ask (.cancel e.runtime))
          (fun _ => e'.standDown cast c >>= next) n₁ n₂ tr₂ () ∧
        ∀ m, n₂ ≤ m → ∀ token ∈ e.tokens, (x.state m).isCancelled token = true)) ∧
    -- A module that cancels its own token leaves all others alone.
    e.tokens.Nodup ∧ ∀ m u, n ≤ m → x.turn m = some u → ∀ s ∈ e.slots,
      (x.state m).IsAboutTo u (.cancel s.kit.token) → ∀ token ∈ e.tokens, token ≠ s.kit.token →
        (x.state (m + 1)).isCancelled token = (x.state m).isCancelled token := by
  have hruntime : e'.runtime = e.runtime := hstory.evolves.runtime
  obtain ⟨_, _, _, _, _, _, huntouched⟩ := Blueprint.build_run hbuild.run
  refine ⟨fun s hs hdue => hstory.isOngoing huntouched hs hdue, fun m hm hmj hamid hquiet m' hn hm' => ?_, ?_,
    hbuild.nodup_tokens hx.proper, ?_⟩
  · -- Whoever builds, launches or runs the hooks cancels nothing.
    refine hbuild.uncancelled hx.proper hn fun k hk hkm hcancels => ?_
    have hkm : k < m := Nat.lt_of_lt_of_le hkm hm'
    rcases hquiet k hk hkm hcancels with hbuilds | ⟨e₁, hlaunches⟩ | ⟨hi', hown⟩
    · exact hbuilds.not_cancels Blueprint.build_builds (fun _ => id) hcancels
    · exact hlaunches.not_cancels Ensemble.launch_launches (fun _ => id) hcancels
    · exact (hamid k hi' hkm).not_cancels Ensemble.runClosing_launches hown (fun _ => id) e hcancels
  · rw [Ensemble.shutdown_eq_standDown, hruntime] at hk
    simp only [bind_assoc] at hk
    rcases Execution.followed huncut hij hk with hamid | ⟨n₁, tr₁, c, hn₁, hclosed⟩
    · exact .inl hamid
    refine .inr ⟨n₁, tr₁, c, hn₁, hclosed, ?_⟩
    have hle₁ := hclosed.through.le
    obtain ⟨passes₁, hk₁⟩ := hclosed.after
    rcases Execution.followed (huncut.tail hle₁) hn₁ hk₁ with hamid | ⟨n₂, tr₂, ⟨⟩, hn₂, htold⟩
    · exact .inl hamid
    refine .inr ⟨n₂, tr₂, hn₂, htold, ?_⟩
    obtain ⟨_, _, rfl, -⟩ := Program.run_perform_iff.1 htold.run
    cases htold.through with
    | @cons _ _ _ m₀ n₀ _ hm₀ hanswers hrest =>
      have hle := hanswers.le
      have hle₂ := hrest.le
      have hthere := State.lt_of_parentOf (hbuild.origin hx (j := n₀) (by omega))
      intro m hm
      exact hbuild.cancelled hx (by omega) (hanswers.cancelled hthere) (by omega)
  · intro m u hn hturn s hs habout token htoken hne
    exact hbuild.spares hx hn hturn hs habout htoken hne

set_option maxRecDepth 4000 in
/-- Without a shutdown before the launch the workers are told last. -/
theorem workers_told_last_lifetime : ∃ n₁ n₂, n₁ ≤ n₂ ∧ n₂ ≤ 157 ∧
    (∀ m, 26 ≤ m → m ≤ n₁ → ∀ token ∈ (Ensemble.required .unstarted false).tokens,
      ((Execution.lifetime false).state m).isCancelled token = false) ∧
    ∀ m, n₂ ≤ m → ∀ token ∈ (Ensemble.required .unstarted false).tokens,
      ((Execution.lifetime false).state m).isCancelled token = true := by
  obtain ⟨tr, hbuild⟩ := Execution.lifetime_built false
  obtain ⟨T, hstory⟩ := Execution.lifetime_story
  have hwithin : ∀ n, n ≤ 157 → 132 ≤ n →
      (((Execution.lifetime false).state n).core 0).any (Core.isWithin 0) = true := by
    decide +kernel
  have hfree : ∀ m, m < 157 →
      ((Execution.lifetime false).state m).tokens.all (fun k => !k.cancelled) = true := by
    decide +kernel
  have hend : ((Execution.lifetime false).state 157).core 0 = some ⟨.running
      (Ensemble.standDown .sample (.required .postLaunched true) ⟨(Ensemble.required .shutdown true).slots, 3, []⟩
        >>= Program.parted), [], []⟩ := rfl
  -- The only step that cancels a token is the one with which the workers are told.
  have hquiet : ∀ m, m < 157 → (Execution.lifetime false).Cancels (.required .unstarted false) m →
      132 ≤ m ∧ (Execution.lifetime false).IsOwn 0 ([] : Calls .bare).length m := by
    rintro m hm ⟨token, -, -, -, hafter⟩
    obtain rfl : m = 156 := by
      by_contra hne
      rw [State.isCancelled_of_all (hfree (m + 1) (by omega))] at hafter
      cases hafter
    exact ⟨by decide, by decide +kernel, Option.map_eq_some_iff.1 (by decide +kernel)⟩
  obtain ⟨-, hfirst, hamid | ⟨n₁, _, c, hn₁, hclosed, hasking | ⟨n₂, _, hn₂, htold, hcancelled⟩⟩, -, -⟩ :=
    workers_told_last (Execution.lifetime false) Execution.directed_isSteady .sample "sample"
      Blueprint.required 0 (Program.lived false) 0 [] 5 26 tr (.required .unstarted false) hbuild T _ hstory
      Program.parted 0 [] [] 132 157 (by decide) (by decide) (Execution.uncut_of_isWithin hwithin) rfl
  · -- Neither the hooks nor the announcement ask for a wait,
    obtain ⟨op, hop, hserves⟩ :=
      (hamid 157 (by decide) (Nat.le_refl _)).serves Ensemble.runClosing_launches hend rfl
    obtain rfl : .awaitCrew 0 _ = op := hserves
    exact hop.elim
  · -- nor does whoever tells the workers.
    obtain ⟨op, rfl, hserves⟩ := (hasking 157 hn₁ (Nat.le_refl _)).serves
      (P := fun op => op = .cancel 0) (Program.only_ask rfl) hend rfl
    cases hserves
  · refine ⟨n₁, n₂, htold.through.le, hn₂, fun m hm hmn₁ => ?_, hcancelled⟩
    exact hfirst n₁ hclosed.through.le hn₁ hclosed.amid
      (fun k _ hk hcancels => .inr (.inr (hquiet k (Nat.lt_of_lt_of_le hk hn₁) hcancels))) m hm hmn₁

set_option maxRecDepth 4000 in
/-- **After an early shutdown the workers are told first**, though no hook, listener or worker does anything at
all: the ensemble is shut down, launched and shut down again, its hooks are due and about to be run, and all
tokens of its modules have been cancelled. -/
theorem workers_told_before_hooks :
    (∀ callee, World.bare.body callee = .done (.ok ())) ∧
    ((Execution.lifetime true).state 27).core 0 = some ⟨.running
      ((Ensemble.required .unstarted false).shutdown .sample "sample" >>= fun r =>
        r.2.launch .sample "sample" >>= Program.closing), [], []⟩ ∧
    ((Execution.lifetime true).state 43).core 0 = some ⟨.running
      ((Ensemble.required .unstarted false).launch .sample "sample" >>= Program.closing), [], []⟩ ∧
    ((Execution.lifetime true).state 124).core 0 = some ⟨.running
      ((Ensemble.required .postLaunched true).shutdown .sample "sample" >>= Program.parted), [], []⟩ ∧
    ∀ s ∈ (Ensemble.required .postLaunched true).slots, s.isDue = true ∧
      ((Execution.lifetime true).state 124).isCancelled s.kit.token = true := by
  refine ⟨fun callee => rfl, rfl, rfl, rfl, ?_⟩
  decide +kernel

end Orchestra
