import Orchestra.Proofs.Delivering
import Orchestra.Proofs.Tracing

/-!
# Changes along a program

A program that calls nobody changes the listeners of a bus with its exchanges only.  If no other task changes
them meanwhile, they are at every moment what those of its exchanges that have been answered made of them.

* `changesTo` — the changes to a bus in exchanges;
* `Execution.Makes` — the changes to a bus from one moment to another;
* `Execution.Alone` — nobody but one task changes a bus;
* `Execution.ask_followed` — an operation has not been asked for, or waits for its answer, or has been answered;
* `Execution.changes_followed` — what a program has changed by the time it has come so far, or has returned.
-/

namespace Orchestra

variable {A : Application} {α : Type}

/-- The change to a bus in an exchange. -/
def Exchange.changeTo (b : BusId) (y : Exchange A) : Option Edit :=
  match y.op with
  | .edit b' e => if b' = b then some e else none
  | _ => none

/-- The changes to a bus in exchanges. -/
def changesTo (b : BusId) (tr : List (Exchange A)) : List Edit := tr.filterMap (Exchange.changeTo b)

@[simp] theorem changesTo_nil (b : BusId) : changesTo b ([] : List (Exchange A)) = [] := rfl

@[simp] theorem changesTo_cons (b : BusId) (y : Exchange A) (tr : List (Exchange A)) :
    changesTo b (y :: tr) = (y.changeTo b).toList ++ changesTo b tr := by
  rw [changesTo, List.filterMap_cons]
  cases y.changeTo b <;> rfl

@[simp] theorem changesTo_append (b : BusId) (tr tr' : List (Exchange A)) :
    changesTo b (tr ++ tr') = changesTo b tr ++ changesTo b tr' :=
  List.filterMap_append

/-- An operation that is no call. -/
def Op.CallsNobody : Op A → Prop
  | .call .. => False
  | _ => True

/-- A program that asks only what can be answered can go on from wherever it has come to. -/
theorem Program.Asks.extends {p : Program A α} {tr : List (Exchange A)} {op : Op A} (h : p.Asks tr op)
    (hp : p.Only fun op => Nonempty op.Answer) : ∃ tr' a, p.Run (tr ++ tr') a := by
  obtain ⟨rest, hleads⟩ := h
  generalize Program.perform op rest = q at hleads
  induction hleads with
  | start p => exact Program.exists_run hp
  | perform x _ ih =>
    obtain ⟨tr', a, hrun⟩ := ih (hp.2 x)
    exact ⟨tr', a, .perform x hrun⟩

namespace Machine.Execution

variable {w : World A} {x : Execution w} {b : BusId} {t : TaskId} {calls : Calls A} {passes : List Pass}
  {i j m n : Nat}

/-! ### The changes from one moment to another -/

/-- From `i` to `j` some changes to a bus take effect, and no others. -/
structure Makes (x : Execution w) (b : BusId) (es : List Edit) (i j : Nat) : Prop where
  le : i ≤ j
  edits : x.edits b j = x.edits b i ++ es

/-- Nobody but task `t` changes a bus from `i` to `j`. -/
def Alone (x : Execution w) (b : BusId) (t : TaskId) (i j : Nat) : Prop :=
  ∀ m, i ≤ m → m < j → x.turn m ≠ some t → x.edit b m = none

theorem Alone.mono (h : x.Alone b t i j) (hi : i ≤ m) (hj : n ≤ j) : x.Alone b t m n :=
  fun l hl hl' => h l (Nat.le_trans hi hl) (Nat.lt_of_lt_of_le hl' hj)

variable {es es' : List Edit}

theorem Makes.refl (n : Nat) : x.Makes b [] n n := ⟨Nat.le_refl n, by rw [List.append_nil]⟩

theorem Makes.trans (h : x.Makes b es i m) (h' : x.Makes b es' m j) : x.Makes b (es ++ es') i j :=
  ⟨Nat.le_trans h.le h'.le, by rw [h'.edits, h.edits, List.append_assoc]⟩

theorem makes_succ (n : Nat) : x.Makes b (x.edit b n).toList n (n + 1) := by
  refine ⟨Nat.le_succ n, ?_⟩
  rw [edits, List.range_succ, List.filterMap_append]
  cases hedit : x.edit b n with
  | none => rw [List.filterMap_cons_none hedit]; rfl
  | some e => rw [List.filterMap_cons_some hedit]; rfl

theorem makes_nothing (hij : i ≤ j) (h : ∀ m, i ≤ m → m < j → x.edit b m = none) :
    x.Makes b [] i j := by
  induction hij with
  | refl => exact .refl i
  | @step j hij ih =>
    have hlast := makes_succ (x := x) (b := b) j
    rw [h j hij (Nat.lt_succ_self j)] at hlast
    exact (ih fun m hm hmj => h m hm (Nat.lt_succ_of_lt hmj)).trans hlast

theorem Makes.listeners (h : x.Makes b es i j) :
    x.listeners b j = es.foldl (fun set e => e.apply set) (x.listeners b i) := by
  rw [x.listeners_eq, h.edits, List.foldl_append, ← x.listeners_eq]

/-- A task that stays as it is changes nothing, and neither does anybody else. -/
theorem Rests.makes {k : Core A} (h : x.Rests t k i j) (halone : x.Alone b t i j) (hij : i ≤ j) :
    x.Makes b [] i j := by
  refine makes_nothing hij fun m hm hmj => ?_
  by_cases hturn : x.turn m = some t
  · exact h.spares m hm hmj hturn
  · exact halone m hm hmj hturn

/-! ### One operation -/

section

variable {op : Op A} {next : op.Answer → Program A Outcome}

/-- Whoever changes listeners has asked for that change and waits for the answer. -/
theorem Awaits.serves_edit (h : x.Awaits t calls op next m n) (hop : op.CallsNobody) (hmn : m ≤ n)
    (hturn : x.turn n = some t) {e : Edit} (hedit : x.edit b n = some e) : op = .edit b e := by
  obtain ⟨u, k, k', hu, hk, -, hedits⟩ := edit_eq_some hedit
  obtain rfl := Option.some.inj (hu.symm.trans hturn)
  obtain ⟨copy, next', q, hdoing, -⟩ := Doing.edits_eq_some hedits
  rcases Nat.eq_or_lt_of_le hmn with rfl | hlt
  · obtain ⟨passes, hbefore⟩ := h.before
    obtain rfl := Option.some.inj (hk.symm.trans hbefore)
    cases hdoing
  · obtain ⟨c, hc, ⟨wait, passes, hwait, rfl⟩ | hcalled⟩ := h.pends n hlt (Nat.le_refl n)
    · obtain rfl := Option.some.inj (hk.symm.trans hc)
      cases hdoing
      exact hwait.eq_asked rfl
    · cases op with
      | call callee limit => exact hop.elim
      | _ => exact hcalled.elim

/-- As long as an operation is waited for, nothing has been changed. -/
theorem Awaits.makes (h : x.Awaits t calls op next m n) (hop : op.CallsNobody) (hmn : m ≤ n)
    (halone : x.Alone b t m n) : x.Makes b [] m n := by
  refine makes_nothing hmn fun l hl hln => ?_
  by_cases hturn : x.turn l = some t
  · cases hedit : x.edit b l with
    | none => rfl
    | some e =>
      -- After a change the task would go on, but it waits.
      obtain ⟨u, k, k', hu, -, hk', hedits⟩ := edit_eq_some hedit
      obtain rfl := Option.some.inj (hu.symm.trans hturn)
      obtain ⟨copy, next', q, -, hdoing'⟩ := Doing.edits_eq_some hedits
      obtain ⟨c, hc, ⟨wait, passes, -, rfl⟩ | hcalled⟩ := h.pends (l + 1) (Nat.lt_succ_of_le hl) hln
      · obtain rfl := Option.some.inj (hk'.symm.trans hc)
        cases hdoing'
      · cases op with
        | call callee limit => exact hop.elim
        | _ => exact hcalled.elim
  · exact halone l hl hln hturn

/-- With the answer the change takes effect that was asked for, if any was. -/
theorem Answers.makes {y : Exchange A} (h : x.Answers t calls y m n) (hop : y.op.CallsNobody)
    (halone : x.Alone b t m n) : x.Makes b (y.changeTo b).toList m (n + 1) := by
  obtain ⟨next, hawaits, -⟩ := h.asks
  have hanswer : x.edit b n = y.changeTo b := by
    obtain ⟨op, answer⟩ := y
    cases hedit : x.edit b n with
    | some e =>
      obtain rfl := hawaits.serves_edit hop h.le h.turn hedit
      exact (if_pos rfl).symm
    | none =>
      cases op with
      | edit b' e =>
        refine (if_neg fun hb => ?_).symm
        subst hb
        rw [h.edit_eq] at hedit
        cases hedit
      | _ => rfl
  have hlast := makes_succ (x := x) (b := b) n
  rw [hanswer] at hlast
  exact (hawaits.makes hop h.le halone).trans hlast

/-- An operation that has been asked for waits for its answer, or has been answered. -/
theorem Awaits.followed (h : x.Awaits t calls op next m m) (hmj : m ≤ j)
    (huncut : x.Uncut t calls.length m j) : x.Awaits t calls op next m j ∨
      ∃ n answer passes', n < j ∧ x.Awaits t calls op next m n ∧ x.Answers t calls ⟨op, answer⟩ m n ∧
        (x.state (n + 1)).core t = some ⟨.running (next answer), calls, passes'⟩ := by
  induction hmj with
  | refl => exact .inl h
  | @step j hmj ih =>
    rcases ih (huncut.mono (Nat.le_refl m) (Nat.le_succ j)) with
      hawaits | ⟨n, answer, passes', hn, hanswered⟩
    · rcases hawaits.succ hmj (huncut.tail hmj) with hawaits' | ⟨answer, hanswers, passes', hafter⟩
      · exact .inl hawaits'
      · exact .inr ⟨j, answer, passes', Nat.lt_succ_self j, hawaits, hanswers, hafter⟩
    · exact .inr ⟨n, answer, passes', Nat.lt_succ_of_lt hn, hanswered⟩

/-- A task that takes its next step has asked for the operation it was about to ask for. -/
theorem Acts.asked {k' : Core A} {d : Nat}
    (h : x.Acts t d ⟨.running (.perform op next), calls, passes⟩ i m k') :
    x.Awaits t calls op next m m :=
  ⟨h.turn, ⟨passes, h.before⟩, fun _ hl hl' => absurd hl (Nat.not_lt_of_le hl')⟩

/-- **An operation that a task is about to ask for**: it is so still, or it waits for the answer, or it has
been answered. -/
theorem ask_followed (huncut : x.Uncut t calls.length i j) (hij : i ≤ j)
    (hk : (x.state i).core t = some ⟨.running (.perform op next), calls, passes⟩) :
    x.Rests t ⟨.running (.perform op next), calls, passes⟩ i j ∨ ∃ m, i ≤ m ∧ m < j ∧
      x.Rests t ⟨.running (.perform op next), calls, passes⟩ i m ∧ (x.Awaits t calls op next m j ∨
        ∃ n answer passes', n < j ∧ x.Answers t calls ⟨op, answer⟩ m n ∧
          (x.state (n + 1)).core t = some ⟨.running (next answer), calls, passes'⟩) := by
  rcases first_turn huncut hij hk with hrests | ⟨m, k', hm, hacts⟩
  · exact .inl hrests
  refine .inr ⟨m, hacts.le, hm, hacts.rests, ?_⟩
  rcases hacts.asked.followed (Nat.le_of_lt hm) (huncut.tail hacts.le) with
    hawaits | ⟨n, answer, passes', hn, -, hanswered⟩
  · exact .inl hawaits
  · exact .inr ⟨n, answer, passes', hn, hanswered⟩

end

/-! ### A program -/

/-- One more exchange before a program that a task is on its way through. -/
theorem Amid.cons {op : Op A} {rest : op.Answer → Program A α} {next : α → Program A Outcome}
    {answer : op.Answer} (hi : i ≤ m) (hanswers : x.Answers t calls ⟨op, answer⟩ m n)
    (h : x.Amid t calls (rest answer) next (n + 1) j) : x.Amid t calls (.perform op rest) next i j := by
  cases h with
  | idle hleads hthrough hm hk => exact .idle (.perform answer hleads) (.cons hi hanswers hthrough) hm hk
  | busy hleads hthrough hm hm' hawaits =>
    exact .busy (.perform answer hleads) (.cons hi hanswers hthrough) hm hm' hawaits

/-- **What a program that calls nobody has changed**, if nobody else changes the bus: it is on its way, and the
changes are those of its exchanges so far, or it has returned, and they are those of all of them. -/
theorem changes_followed {p : Program A α} {next : α → Program A Outcome} (hp : p.Only Op.CallsNobody)
    (huncut : x.Uncut t calls.length i j) (hij : i ≤ j) (halone : x.Alone b t i j)
    (hk : (x.state i).core t = some ⟨.running (p >>= next), calls, passes⟩) :
    (x.Amid t calls p next i j ∧ ∃ tr op, p.Asks tr op ∧ x.Makes b (changesTo b tr) i j) ∨
      ∃ n tr a passes', n ≤ j ∧ p.Run tr a ∧ x.Makes b (changesTo b tr) i n ∧
        (x.state n).core t = some ⟨.running (next a), calls, passes'⟩ := by
  induction p generalizing i passes with
  | done a => exact .inr ⟨i, [], a, passes, hij, .done a, .refl i, hk⟩
  | perform op rest ih =>
    obtain ⟨hop, hrest⟩ := hp
    rcases ask_followed huncut hij hk with hrests | ⟨m, hi, hm, hrests, hcase⟩
    · exact .inl ⟨.idle (.start _) (.nil i) hij (hrests.last hij), [], op, ⟨rest, .start _⟩,
        hrests.makes halone hij⟩
    have hbefore := hrests.makes (halone.mono (Nat.le_refl i) (Nat.le_of_lt hm)) hi
    rcases hcase with hawaits | ⟨n, answer, passes', hn, hanswers, hafter⟩
    · refine .inl ⟨.busy (.start _) (.nil i) hi hm hawaits, [], op, ⟨rest, .start _⟩, ?_⟩
      exact hbefore.trans (hawaits.makes hop (Nat.le_of_lt hm) (halone.mono hi (Nat.le_refl j)))
    -- The operation has been answered, and the rest of the program comes to what it comes to.
    have hmade := hbefore.trans (hanswers.makes hop (halone.mono hi (Nat.le_of_lt hn)))
    have hle : i ≤ n + 1 := hmade.le
    rcases ih answer (hrest answer) (huncut.tail hle) hn (halone.mono hle (Nat.le_refl j)) hafter with
      ⟨hamid, tr, op', ⟨rest', hleads⟩, hmakes⟩ | ⟨n', tr, a, passes'', hn', hrun, hmakes, hend⟩
    · refine .inl ⟨hamid.cons hi hanswers, ⟨op, answer⟩ :: tr, op', ⟨rest', .perform answer hleads⟩, ?_⟩
      rw [changesTo_cons]
      exact hmade.trans hmakes
    · refine .inr ⟨n', ⟨op, answer⟩ :: tr, a, passes'', hn', .perform answer hrun, ?_, hend⟩
      rw [changesTo_cons]
      exact hmade.trans hmakes

end Machine.Execution

end Orchestra
