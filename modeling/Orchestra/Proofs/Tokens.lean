import Orchestra.Proofs.Effects
import Orchestra.Proofs.Staging

/-!
# Tokens stay cancelled

A token that has been cancelled stays so, and only an operation that cancels makes a difference to a token
that has been made.  What happens when it is nobody's turn is little: the clock moves, alarms go off, tasks
that were told to end do so, and the main task is given programs.

* `State.Effect.isCancelled_of`, `State.Effect.isCancelled_eq` — what a step makes of a token;
* `State.Aside` — what may happen aside from the tasks' steps;
* `Execution.IsProper` — nothing else happens when it is nobody's turn;
* `State.run_isProper`, `Execution.directed_isProper` — so it is with the scheduler, and with given moves;
* `Execution.IsProper.isCancelled_mono`, `Execution.IsProper.length_mono` — tokens stay, and stay cancelled.
-/

namespace Orchestra.Machine

variable {A : Application}

namespace State

variable {w : World A} {s s' : State A} {t : TaskId} {token other : TokenId}

/-! ### Cancelling -/

theorem lt_of_isCancelled (h : s.isCancelled token = true) : token < s.tokens.length := by
  by_contra hlt
  rw [isCancelled, List.getElem?_eq_none (Nat.le_of_not_lt hlt)] at h
  cases h

theorem isCancelled_of_all (h : s.tokens.all (fun k => !k.cancelled) = true) (token : TokenId) :
    s.isCancelled token = false := by
  rw [isCancelled]
  cases htoken : s.tokens[token]? with
  | none => rfl
  | some k =>
    have hk := List.all_eq_true.1 h k (List.mem_of_getElem? htoken)
    rwa [Bool.not_eq_true'] at hk

/-- Whether a token among some tokens has been cancelled. -/
def cancelledIn (tokens : List Token) (token : TokenId) : Bool :=
  ((tokens[token]?).map Token.cancelled).getD false

theorem cancelledIn_modify_self {tokens : List Token} (h : token < tokens.length) :
    cancelledIn (tokens.modify token cancelledToken) token = true := by
  simp [cancelledIn, cancelledToken, h]

theorem cancelledIn_modify {tokens : List Token} (h : cancelledIn tokens token = true) (k : TokenId) :
    cancelledIn (tokens.modify k cancelledToken) token = true := by
  unfold cancelledIn at h ⊢
  by_cases hk : k = token
  · subst hk
    cases htoken : tokens[k]? with
    | none => rw [htoken] at h; cases h
    | some _ => simp [htoken, cancelledToken]
  · rwa [List.getElem?_modify_ne _ _ hk]

theorem cancelledIn_foldl {ks : List TokenId} {tokens : List Token}
    (h : cancelledIn tokens token = true) :
    cancelledIn (ks.foldl (fun tokens k => tokens.modify k cancelledToken) tokens) token = true := by
  induction ks generalizing tokens with
  | nil => exact h
  | cons k rest ih => exact ih (cancelledIn_modify h k)

theorem length_foldl_modify (ks : List TokenId) (tokens : List Token) :
    (ks.foldl (fun tokens k => tokens.modify k cancelledToken) tokens).length = tokens.length := by
  induction ks generalizing tokens with
  | nil => rfl
  | cons k rest ih => rw [List.foldl_cons, ih, List.length_modify]

theorem length_cancel (s : State A) (token : TokenId) :
    (s.cancel token).tokens.length = s.tokens.length := by
  rw [cancel_tokens]
  split
  · rfl
  · rw [List.length_modify, length_foldl_modify]

/-- A token that exists can be cancelled. -/
theorem isCancelled_cancel_self (h : token < s.tokens.length) :
    (s.cancel token).isCancelled token = true := by
  show cancelledIn (s.cancel token).tokens token = true
  rw [cancel_tokens]
  split
  · next hcancelled => exact hcancelled
  · exact cancelledIn_modify_self (by rwa [length_foldl_modify])

/-- Cancelling a token cancels no fewer. -/
theorem isCancelled_cancel (h : s.isCancelled token = true) (other : TokenId) :
    (s.cancel other).isCancelled token = true := by
  show cancelledIn (s.cancel other).tokens token = true
  rw [cancel_tokens]
  split
  · exact h
  · exact cancelledIn_modify (cancelledIn_foldl h) _

/-! ### What a step makes of a token -/

/-- **Only an operation that cancels touches the tokens there are**; others are added after them. -/
theorem Effect.tokens_cases (h : s.Effect t s') :
    s.tokens <+: s'.tokens ∨
      ∃ token, s.IsAboutTo t (.cancel token) ∧ s'.tokens = (s.cancel token).tokens := by
  cases h with
  | spares h => exact .inl (h.tokens ▸ List.prefix_refl _)
  | makesToken _ _ htokens => exact .inl (htokens ▸ List.prefix_append _ _)
  | cancels token habout htokens => exact .inr ⟨token, habout, htokens⟩
  | makesCrew _ htokens => exact .inl (htokens ▸ List.prefix_refl _)
  | closesCrew _ _ _ htokens => exact .inl (htokens ▸ List.prefix_refl _)
  | spawns _ _ _ htokens => exact .inl (htokens ▸ List.prefix_refl _)
  | hires _ _ _ _ htokens => exact .inl (htokens ▸ List.prefix_refl _)
  | ends h => exact .inl (h.tokens ▸ List.prefix_refl _)

theorem isCancelled_of_isPrefix (h : s.tokens <+: s'.tokens) (htoken : token < s.tokens.length) :
    s'.isCancelled token = s.isCancelled token := by
  obtain ⟨rest, hrest⟩ := h
  rw [isCancelled, isCancelled, ← hrest, List.getElem?_append_left htoken]

/-- A token that has been made is cancelled by those steps only that cancel a token. -/
theorem Effect.isCancelled_eq (h : s.Effect t s') (hnone : ∀ token, ¬ s.IsAboutTo t (.cancel token))
    (htoken : token < s.tokens.length) : s'.isCancelled token = s.isCancelled token := by
  rcases h.tokens_cases with hprefix | ⟨k, habout, -⟩
  · exact isCancelled_of_isPrefix hprefix htoken
  · exact absurd habout (hnone k)

/-- **A token that has been cancelled stays so.** -/
theorem Effect.isCancelled_of (h : s.Effect t s') (hcancelled : s.isCancelled token = true) :
    s'.isCancelled token = true := by
  rcases h.tokens_cases with hprefix | ⟨k, -, htokens⟩
  · rw [isCancelled_of_isPrefix hprefix (lt_of_isCancelled hcancelled), hcancelled]
  · rw [isCancelled_congr htokens]
    exact isCancelled_cancel hcancelled k

theorem Effect.length_le (h : s.Effect t s') : s.tokens.length ≤ s'.tokens.length := by
  rcases h.tokens_cases with hprefix | ⟨k, -, htokens⟩
  · exact hprefix.length_le
  · exact Nat.le_of_eq (by rw [htokens, length_cancel])

/-! ### Aside from the tasks' steps -/

/-- What may happen aside from the tasks' steps: tokens may be cancelled, but crews and posts stay as they
are. -/
structure Aside (s s' : State A) : Prop where
  length : s'.tokens.length = s.tokens.length
  cancelled : ∀ token, s.isCancelled token = true → s'.isCancelled token = true
  crews : s'.crews = s.crews
  posts : s'.posts = s.posts

theorem Aside.refl (s : State A) : s.Aside s := ⟨rfl, fun _ h => h, rfl, rfl⟩

theorem Aside.trans {s₁ : State A} (h : s.Aside s₁) (h' : s₁.Aside s') : s.Aside s' :=
  ⟨h'.length.trans h.length, fun token hc => h'.cancelled token (h.cancelled token hc),
    h'.crews.trans h.crews, h'.posts.trans h.posts⟩

theorem Spares.aside (h : s.Spares s') : s.Aside s' :=
  ⟨congrArg List.length h.tokens, fun token hc => by rw [isCancelled_congr h.tokens, hc], h.crews, h.posts⟩

theorem cancel_aside (s : State A) (token : TokenId) : s.Aside (s.cancel token) :=
  ⟨length_cancel s token, fun _ hc => isCancelled_cancel hc token, cancel_crews s token,
    posts_eq (cancel_tasks s token)⟩

theorem park_aside (t : TaskId) (s : State A) : s.Aside (s.park t) := by
  unfold park
  split
  · next k hk =>
    split
    · next wait hstatus =>
      refine ⟨rfl, fun _ h => h, rfl, List.ext_getElem? fun u => ?_⟩
      rw [posts, posts, List.getElem?_map, List.getElem?_map]
      by_cases hu : u = t
      · subst hu
        have hpost : ({ k with frames := (stampFrames (s.stamp + 1) k.frames).1,
                               status := .waiting wait (some s.stamp) } : Task A).post? = k.post? :=
          Task.post?_of_role rfl (by rw [hstatus]; rfl)
        simp only [List.getElem?_set_self (List.getElem?_eq_some_iff.1 hk).1, Option.map_some, hk, hpost]
      · simp only [List.getElem?_set_ne (Ne.symm hu)]
    · exact .refl s
  · exact .refl s

theorem deliverSignal_aside (g : Signal) (s : State A) : s.Aside (s.deliverSignal g) := by
  have htold : s.Spares { s with tasks := s.tasks.map fun k => { k with status := signalled g k.status } } := by
    refine ⟨rfl, rfl, ?_⟩
    rw [posts, posts, List.map_map]
    refine List.map_congr_left fun k _ => Task.post?_of_role rfl ?_
    show (signalled g k.status).isOver = _
    unfold signalled
    split <;> simp_all [Status.isOver]
  unfold deliverSignal
  split
  · exact (htold.trans (wakeAll_spares _ _)).aside
  · exact ⟨rfl, fun _ h => h, rfl, rfl⟩

theorem tick_aside (h : s.tick = some s') : s.Aside s' :=
  tick_steps Aside.trans (fun _ _ _ => ⟨rfl, fun _ h => h, rfl, rfl⟩) (fun s t => (wake_spares s t).aside)
    (fun s g => deliverSignal_aside g s) cancel_aside h

end State

/-! ### Proper executions -/

/-- What may happen when it is nobody's turn: a task that was told to end does so, or something happens
aside from the tasks' steps. -/
def State.Pauses (s s' : State A) : Prop := s.Aside s' ∨ ∃ t, s.Ends t s'

/-- When it is nobody's turn, no more happens to tokens and crews than what may happen aside. -/
def Execution.IsProper {w : World A} (x : Execution w) : Prop :=
  ∀ n, x.turn n = none → (x.state n).Pauses (x.state (n + 1))

namespace State

variable {w : World A} {s s' : State A} {t : TaskId}

theorem Pauses.refl (s : State A) : s.Pauses s := .inl (.refl s)

/-- A turn begins with nothing at all, or a task that was told to end does so. -/
theorem begin_cases (t : TaskId) (s : State A) : s.begin t = s ∨ s.Ends t (s.begin t) := by
  unfold begin
  split
  · next k hk =>
    split
    · exact .inl rfl
    · next hended =>
      split
      · refine .inr (finish_ends .aborted hk ?_)
        cases hstatus : k.status with
        | ended e => exact absurd hstatus (hended e)
        | running p => rfl
        | waiting wait stamp => rfl
      · exact .inl rfl
  · exact .inl rfl

theorem begin_pauses (t : TaskId) (s : State A) : s.Pauses (s.begin t) := by
  rcases begin_cases t s with hsame | hends
  · rw [hsame]
    exact .refl s
  · exact .inr ⟨t, hends⟩

/-- **What the scheduler does is proper.** -/
theorem run_isProper (w : World A) (fuel : Nat) (current : Option TaskId) (s : State A) :
    Relation.ReflTransGen (fun s s' => s.Pauses s' ∨ ∃ t, s.advance w t = some s') s
      (s.run w fuel current) := by
  exact run_steps (fun hadvance => .inr ⟨_, hadvance⟩) (fun t s => .inl (.inl (park_aside t s)))
    (fun s rest => .inl (.inl ⟨rfl, fun _ h => h, rfl, rfl⟩)) (fun t s => .inl (begin_pauses t s))
    (fun htick => .inl (.inl (tick_aside htick))) fuel current s

theorem move_pauses {m : Move} (h : s.turnOf w m = none) : s.Pauses ((s.move w m).getD s) :=
  move_aside Pauses.refl (fun t s => .inl (park_aside t s)) (fun htick => .inl (tick_aside htick))
    (fun g s => .inl (deliverSignal_aside g s)) h

end State

namespace Execution

variable {w : World A} {x : Execution w} {token : TokenId} {i j n : Nat}

theorem directed_isProper {buses : Nat} {p : Program A Outcome} {memory : A.Memory} {moves : List Move} :
    (Execution.directed w buses p memory moves).IsProper := by
  intro n hturn
  cases n with
  | zero => exact .inl ⟨rfl, fun _ h => h, rfl, rfl⟩
  | succ n => exact State.move_pauses hturn

/-- What happens to tokens and crews with one step. -/
theorem IsProper.cases (hx : x.IsProper) (n : Nat) :
    (∃ t, x.turn n = some t ∧ (x.state n).Effect t (x.state (n + 1))) ∨
      (x.state n).Pauses (x.state (n + 1)) := by
  cases hturn : x.turn n with
  | none => exact .inr (hx n hturn)
  | some t => exact .inl ⟨t, rfl, State.advance_effect (advance_of_turn hturn)⟩

theorem IsProper.length_succ (hx : x.IsProper) (n : Nat) :
    (x.state n).tokens.length ≤ (x.state (n + 1)).tokens.length := by
  rcases hx.cases n with ⟨t, -, heffect⟩ | haside | ⟨t, hends⟩
  · exact heffect.length_le
  · exact Nat.le_of_eq haside.length.symm
  · exact (State.Effect.ends hends).length_le

/-- Tokens stay. -/
theorem IsProper.length_mono (hx : x.IsProper) (hij : i ≤ j) :
    (x.state i).tokens.length ≤ (x.state j).tokens.length := by
  induction hij with
  | refl => exact Nat.le_refl _
  | step _ ih => exact Nat.le_trans ih (hx.length_succ _)

/-- **Tokens stay cancelled.** -/
theorem IsProper.isCancelled_mono (hx : x.IsProper) (hij : i ≤ j)
    (h : (x.state i).isCancelled token = true) : (x.state j).isCancelled token = true := by
  induction hij with
  | refl => exact h
  | @step n _ ih =>
    rcases hx.cases n with ⟨t, -, heffect⟩ | haside | ⟨t, hends⟩
    · exact heffect.isCancelled_of ih
    · exact haside.cancelled token ih
    · exact (State.Effect.ends hends).isCancelled_of ih

end Execution

end Orchestra.Machine
