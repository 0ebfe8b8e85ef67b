import Orchestra.Program

/-!
# Runs of programs

A program comes to its end through exchanges: it asks for operations, and somebody answers.

* `Exchange` — an operation with the answer it was given;
* `Program.Run` — what a program comes to through a list of exchanges.  Nothing is said about who
  answers, so a statement about every run holds whatever hooks, listeners and other tasks do;
* `Answerer`, `Program.play` — somebody who answers, and what a program comes to with him;
* `Program.Only` — a program that performs operations of one sort only;
* `Deed`, `deeds` — what exchanges tell of hooks and preparations that were called and of slots that
  were stored.
-/

namespace Orchestra

variable {A : Application} {α β : Type}

/-- An operation and the answer it was given. -/
structure Exchange (A : Application) where
  op : Op A
  answer : op.Answer

namespace Program

/-! ### Runs -/

/-- Through the given exchanges, and no others, a program comes to a result. -/
inductive Run : Program A α → List (Exchange A) → α → Prop where
  | done (a : α) : Run (.done a) [] a
  | perform {op : Op A} {next : op.Answer → Program A α} (x : op.Answer)
      {tr : List (Exchange A)} {a : α} :
      Run (next x) tr a → Run (.perform op next) (⟨op, x⟩ :: tr) a

theorem run_done_iff {a b : α} {tr : List (Exchange A)} :
    Run (.done a) tr b ↔ tr = [] ∧ b = a := by
  constructor
  · intro heq
    cases heq
    exact ⟨rfl, rfl⟩
  · intro hyp
    obtain ⟨rfl, rfl⟩ := hyp
    exact .done _

@[simp] theorem run_pure_iff {a b : α} {tr : List (Exchange A)} :
    Run (pure a : Program A α) tr b ↔ tr = [] ∧ b = a :=
  run_done_iff

theorem run_perform_iff {op : Op A} {next : op.Answer → Program A α} {tr : List (Exchange A)}
    {a : α} : Run (.perform op next) tr a ↔ ∃ x rest, tr = ⟨op, x⟩ :: rest ∧ Run (next x) rest a := by
  constructor
  · intro heq
    cases heq
    exact ⟨_, _, rfl, ‹_›⟩
  · intro hyp
    obtain ⟨x, rest, rfl, h⟩ := hyp
    exact .perform x h

/-- A run of two programs in sequence is a run of the first and then one of the second. -/
theorem run_bind_iff {p : Program A α} {f : α → Program A β} {tr : List (Exchange A)} {b : β} :
    Run (p >>= f) tr b ↔ ∃ first a rest, tr = first ++ rest ∧ Run p first a ∧ Run (f a) rest b := by
  show Run (p.bind f) tr b ↔ _
  induction p generalizing tr with
  | done a =>
    constructor
    · intro h
      exact ⟨[], a, tr, rfl, .done a, h⟩
    · intro hyp
      obtain ⟨first, a', rest, rfl, h, hf⟩ := hyp
      obtain ⟨rfl, rfl⟩ := run_done_iff.1 h
      exact hf
  | perform op next ih =>
    constructor
    · intro h
      obtain ⟨x, rest, rfl, hnext⟩ := run_perform_iff.1 h
      obtain ⟨first, a, rest, rfl, hp, hf⟩ := (ih x).1 hnext
      exact ⟨⟨op, x⟩ :: first, a, rest, rfl, .perform x hp, hf⟩
    · intro hyp
      obtain ⟨first, a, rest, rfl, h, hf⟩ := hyp
      obtain ⟨x, first, rfl, hp⟩ := run_perform_iff.1 h
      exact .perform x ((ih x).2 ⟨first, a, rest, rfl, hp, hf⟩)

/-- A run that begins with one operation. -/
theorem run_ask_bind_iff {op : Op A} {f : op.Answer → Program A β} {tr : List (Exchange A)} {b : β} :
    Run (ask op >>= f) tr b ↔ ∃ x rest, tr = ⟨op, x⟩ :: rest ∧ Run (f x) rest b :=
  run_perform_iff

/-! ### Programs of one sort of operations -/

/-- Whatever the answers, a program performs only operations of one sort. -/
def Only (P : Op A → Prop) : Program A α → Prop
  | done _ => True
  | perform op next => P op ∧ ∀ x, (next x).Only P

theorem only_pure {P : Op A → Prop} (a : α) : Only P (pure a : Program A α) := trivial

theorem only_ask {P : Op A → Prop} {op : Op A} (h : P op) : Only P (ask op) :=
  ⟨h, fun _ => trivial⟩

/-- The second of two programs matters only with those results that the first can have. -/
theorem only_bind_of_run {P : Op A → Prop} {p : Program A α} {f : α → Program A β} (hp : p.Only P)
    (hf : ∀ tr a, Run p tr a → (f a).Only P) : (p >>= f).Only P := by
  show (p.bind f).Only P
  induction p with
  | done a => exact hf [] a (.done a)
  | perform op next ih =>
    exact ⟨hp.1, fun x => ih x (hp.2 x) fun tr a hrun => hf (⟨op, x⟩ :: tr) a (.perform x hrun)⟩

theorem only_bind {P : Op A → Prop} {p : Program A α} {f : α → Program A β} (hp : p.Only P)
    (hf : ∀ a, (f a).Only P) : (p >>= f).Only P :=
  only_bind_of_run hp fun _ a _ => hf a

theorem Only.mono {P Q : Op A → Prop} (h : ∀ op, P op → Q op) {p : Program A α} (hp : p.Only P) :
    p.Only Q := by
  induction p with
  | done a => trivial
  | perform op next ih => exact ⟨h op hp.1, fun x => ih x (hp.2 x)⟩

theorem Run.forall_of_only {P : Op A → Prop} {p : Program A α} {tr : List (Exchange A)} {a : α}
    (h : Run p tr a) (hp : p.Only P) : ∀ x ∈ tr, P x.op := by
  induction h with
  | done a => simp
  | perform x h ih =>
    intro y hy
    rcases List.mem_cons.1 hy with rfl | hy
    · exact hp.1
    · exact ih (hp.2 x) y hy

/-- A program that asks only what can be answered can come to its end. -/
theorem exists_run {p : Program A α} (hp : p.Only fun op => Nonempty op.Answer) :
    ∃ tr a, Run p tr a := by
  induction p with
  | done a => exact ⟨[], a, .done a⟩
  | perform op next ih =>
    obtain ⟨x⟩ := hp.1
    obtain ⟨tr, a, hrun⟩ := ih x (hp.2 x)
    exact ⟨⟨op, x⟩ :: tr, a, .perform x hrun⟩

end Program

/-! ### Answerers -/

/-- Somebody who answers operations and knows what has been asked and answered before.  An
operation that he does not answer is waited for in vain. -/
abbrev Answerer (A : Application) := List (Exchange A) → (op : Op A) → Option op.Answer

/-- Every operation that can be answered at all is answered. -/
def Answerer.IsObliging (σ : Answerer A) : Prop :=
  ∀ past op, Nonempty op.Answer → (σ past op).isSome

/-- The exchanges of a program with an answerer, and what it comes to unless it waits in vain. -/
def Program.play (σ : Answerer A) (past : List (Exchange A)) :
    Program A α → List (Exchange A) × Option α
  | .done a => ([], some a)
  | .perform op next =>
    match σ past op with
    | none => ([], none)
    | some x =>
      let rest := (next x).play σ (past ++ [⟨op, x⟩])
      (⟨op, x⟩ :: rest.1, rest.2)

/-- Exchanges in which every answer is the answerer's. -/
inductive Answerer.Gave (σ : Answerer A) : List (Exchange A) → List (Exchange A) → Prop where
  | nil (past : List (Exchange A)) : Gave σ past []
  | cons {past rest : List (Exchange A)} {op : Op A} {x : op.Answer} :
      σ past op = some x → Gave σ (past ++ [⟨op, x⟩]) rest → Gave σ past (⟨op, x⟩ :: rest)

/-- With an obliging answerer a program that asks only what can be answered comes to its end. -/
theorem Program.exists_play {σ : Answerer A} (hσ : σ.IsObliging) {p : Program A α}
    (hp : p.Only fun op => Nonempty op.Answer) (past : List (Exchange A)) :
    ∃ tr a, p.play σ past = (tr, some a) ∧ Program.Run p tr a ∧ σ.Gave past tr := by
  induction p generalizing past with
  | done a => exact ⟨[], a, rfl, .done a, .nil past⟩
  | perform op next ih =>
    obtain ⟨x, hx⟩ := Option.isSome_iff_exists.1 (hσ past op hp.1)
    obtain ⟨tr, a, hplay, hrun, hgave⟩ := ih x (hp.2 x) (past ++ [⟨op, x⟩])
    refine ⟨⟨op, x⟩ :: tr, a, ?_, .perform x hrun, .cons hx hgave⟩
    simp only [play, hx, hplay]

/-- What a program comes to with somebody is what it comes to through the exchanges with him. -/
theorem Program.run_of_play {σ : Answerer A} {p : Program A α} {past tr : List (Exchange A)} {a : α}
    (h : p.play σ past = (tr, some a)) : Program.Run p tr a := by
  induction p generalizing past tr with
  | done b =>
    obtain ⟨rfl, hb⟩ := Prod.mk.inj h
    obtain rfl := Option.some.inj hb
    exact .done _
  | perform op next ih =>
    rw [play] at h
    split at h
    · cases (Prod.mk.inj h).2
    next x hx =>
      obtain ⟨rfl, ha⟩ := Prod.mk.inj h
      exact .perform x (ih x (Prod.ext rfl ha))

/-! ### What exchanges tell -/

/-- What is done with the modules and listeners of an ensemble. -/
inductive Deed where
  /-- A hook or a preparation was called, and came to an outcome. -/
  | called (callee : Callee) (outcome : Outcome)
  /-- The slots were stored, for everybody to see. -/
  | stored (slots : List Slot)

/-- What was done in an exchange. -/
def Exchange.deed? : Exchange A → Option Deed
  | ⟨.call (.hook m p kit) _, o⟩ => some (.called (.hook m p kit) o)
  | ⟨.call (.prepare l) _, o⟩ => some (.called (.prepare l) o)
  | ⟨.keep _ e, _⟩ => some (.stored e.slots)
  | _ => none

/-- What was done through exchanges, in order. -/
def deeds (tr : List (Exchange A)) : List Deed := tr.filterMap Exchange.deed?

@[simp] theorem deeds_nil : deeds ([] : List (Exchange A)) = [] := rfl

@[simp] theorem deeds_append (xs ys : List (Exchange A)) : deeds (xs ++ ys) = deeds xs ++ deeds ys :=
  List.filterMap_append

/-- An operation that neither calls a hook or a preparation nor stores an ensemble. -/
def Op.IsQuiet : Op A → Prop
  | .call (.hook ..) _ | .call (.prepare _) _ | .keep .. => False
  | _ => True

theorem Exchange.deed?_of_isQuiet {x : Exchange A} (h : x.op.IsQuiet) : x.deed? = none := by
  unfold deed?
  split
  · simp [Op.IsQuiet] at h
  · simp [Op.IsQuiet] at h
  · simp [Op.IsQuiet] at h
  · rfl

/-- A quiet program does nothing with modules and listeners. -/
theorem Program.Run.deeds_of_quiet {p : Program A α} {tr : List (Exchange A)} {a : α}
    (h : Program.Run p tr a) (hp : p.Only Op.IsQuiet) : deeds tr = [] :=
  List.filterMap_eq_nil_iff.2 fun x hx => Exchange.deed?_of_isQuiet (h.forall_of_only hp x hx)

/-- The call that was made, with what came of it. -/
def Deed.call? : Deed → Option (Callee × Outcome)
  | called c o => some (c, o)
  | stored _ => none

/-- The slots that were stored. -/
def Deed.slots? : Deed → Option (List Slot)
  | called .. => none
  | stored slots => some slots

/-- The calls among deeds, with what came of them. -/
def callsOf (ds : List Deed) : List (Callee × Outcome) := ds.filterMap Deed.call?

/-- The slots as they were stored, one after another. -/
def storedIn (ds : List Deed) : List (List Slot) := ds.filterMap Deed.slots?

@[simp] theorem callsOf_nil : callsOf [] = [] := rfl

@[simp] theorem callsOf_called (c : Callee) (o : Outcome) (ds : List Deed) :
    callsOf (.called c o :: ds) = (c, o) :: callsOf ds := rfl

@[simp] theorem callsOf_stored (slots : List Slot) (ds : List Deed) :
    callsOf (.stored slots :: ds) = callsOf ds := rfl

@[simp] theorem callsOf_append (ds ds' : List Deed) :
    callsOf (ds ++ ds') = callsOf ds ++ callsOf ds' :=
  List.filterMap_append

@[simp] theorem storedIn_append (ds ds' : List Deed) :
    storedIn (ds ++ ds') = storedIn ds ++ storedIn ds' :=
  List.filterMap_append

/-- Who was called, in order. -/
def calleesOf (ds : List Deed) : List Callee := (callsOf ds).map Prod.fst

@[simp] theorem calleesOf_nil : calleesOf [] = [] := rfl

@[simp] theorem calleesOf_called (c : Callee) (o : Outcome) (ds : List Deed) :
    calleesOf (.called c o :: ds) = c :: calleesOf ds := rfl

@[simp] theorem calleesOf_stored (slots : List Slot) (ds : List Deed) :
    calleesOf (.stored slots :: ds) = calleesOf ds := rfl

@[simp] theorem calleesOf_append (ds ds' : List Deed) :
    calleesOf (ds ++ ds') = calleesOf ds ++ calleesOf ds' := by
  rw [calleesOf, callsOf_append, List.map_append]
  rfl

end Orchestra
