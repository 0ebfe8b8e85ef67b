import Orchestra.Proofs.Winding

/-!
# Members leave the bus last

Modules and listeners are registered from building on until the workers have been waited for: during every
shutdown hook, while the bus is told of it, and during the wait itself.  Then they leave, and nobody else
does.  Whoever has left is taken off the bus by a further shutdown only if he has come back.

* `Execution.Stays` — all members of an ensemble are registered from one moment to another;
* `Execution.ComesBack` — a member that has been taken off the bus is registered again;
* `Returns.stays` — building registers all members, and they stay as long as nobody removes one;
* `Returns.listeners_eq_filter` — going off the bus leaves all others where they are;
* `IsStepOf.comesBack`, `Returns.listeners_eq` — what a further shutdown does to the bus, step by step and
  as a whole;
* `members_leave_last` — all of it along the life of an ensemble.
-/

namespace Orchestra

open Machine

variable {A : Application} {w : World A}

namespace Machine.Execution

/-- From `i` to `j` all members of an ensemble are registered on its bus. -/
def Stays (x : Execution w) (e : Ensemble) (i j : Nat) : Prop :=
  ∀ m, i ≤ m → m ≤ j → e.members ⊆ x.listeners e.bus m

/-- A member of an ensemble that has been taken off its bus between `i` and `n` has been registered again
since, before `j`. -/
def ComesBack (x : Execution w) (e : Ensemble) (i n j : Nat) : Prop :=
  ∃ l ∈ e.members, ∃ m m', i ≤ m ∧ m < n ∧ x.edit e.bus m = some (.remove l) ∧
    m < m' ∧ m' < j ∧ x.edit e.bus m' = some (.add l)

variable {x : Execution w} {cast : Cast} {name : String} {e e' : Ensemble} {t : TaskId} {calls : Calls A}
  {tr : List (Exchange A)} {b : BusId} {i j m n : Nat}

theorem ComesBack.mono (h : x.ComesBack e i n m) (hmj : m ≤ j) : x.ComesBack e i n j := by
  obtain ⟨l, hl, m₁, m', hm₁, hn, hremoved, hlater, hm', hadded⟩ := h
  exact ⟨l, hl, m₁, m', hm₁, hn, hremoved, hlater, Nat.lt_of_lt_of_le hm' hmj, hadded⟩

/-- A change made on the way through a program is one that the program asks for. -/
theorem IsStepOf.edit {α : Type} {p : Program A α} {P : Op A → Prop} (h : x.IsStepOf p m) (hp : p.Only P)
    {edit : Edit} (hedit : x.edit b m = some edit) : P (.edit b edit) := by
  obtain ⟨t, calls, next, i, hamid, hown⟩ := h
  exact hamid.edit hp hown hedit

/-- **Building registers all members**, and they stay as long as nobody removes one. -/
theorem Returns.stays {a : Blueprint} {bus : BusId} {k : Except LaunchFailure Ensemble → Program A Outcome}
    (h : x.Returns t calls (a.build cast bus) k i n tr (.ok e))
    (hnone : ∀ m, i ≤ m → m < j → ∀ l ∈ e.members, x.edit e.bus m ≠ some (.remove l)) :
    x.Stays e n j := by
  intro m hnm hmj l hl
  obtain ⟨changed, hadded⟩ := Blueprint.build_adds h.run l hl
  exact h.through.registered hadded hnm fun m' hm' hlt =>
    hnone m' hm' (Nat.lt_of_lt_of_le hlt hmj) l hl

/-! ### Going off the bus -/

section

variable {r : Closing × List String} {next : ShutdownSummary × Ensemble → Program A Outcome}
  {report : ShutdownSummary × Ensemble}

/-- Whoever has gone off the bus has removed each member. -/
theorem Returns.removes (h : x.Returns t calls (e'.goOff cast r) next i n tr report)
    (hsame : e.Evolves { e' with slots := r.1.slots }) :
    ∀ l ∈ e.members, ∃ m, i ≤ m ∧ m < n ∧ x.edit e.bus m = some (.remove l) := by
  intro l hl
  have hmember : l ∈ ({ e' with slots := r.1.slots } : Ensemble).members := hsame.members.symm ▸ hl
  obtain ⟨changed, hasked⟩ := Ensemble.leave_asked h.run l hmember
  obtain ⟨m, m', hm, hm', hanswers⟩ := h.through.answers hasked
  rw [← hsame.bus]
  exact ⟨m', Nat.le_trans hm hanswers.le, hm', hanswers.edit_eq⟩

/-- **Going off the bus leaves all others where they are**, if nobody else changes the listeners
meanwhile. -/
theorem Returns.listeners_eq_filter (h : x.Returns t calls (e'.goOff cast r) next i n tr report)
    (hsame : e.Evolves { e' with slots := r.1.slots }) (halone : x.Alone e.bus t i n) :
    x.listeners e.bus n = (x.listeners e.bus i).filter fun l => l ∉ e.members := by
  have hwithdraws : (e'.goOff (A := A) cast r).Only (Op.Withdraws e.bus e.members) := by
    rw [← hsame.bus, ← hsame.members]
    exact Ensemble.leave_withdraws _ _
  have hcallsNobody : (e'.goOff (A := A) cast r).Only Op.CallsNobody :=
    (Ensemble.leave_dismisses _ _).mono fun _ h => h.callsNobody
  refine listeners_of_removals h.through.le (fun m hm hmn edit hedit => ?_) (h.removes hsame)
  have hturn : x.turn m = some t := by
    by_contra hne
    rw [halone m hm hmn hne] at hedit
    cases hedit
  have hamid := h.amid m hm hmn
  have hasked := hamid.edit hwithdraws (hamid.isOwn hcallsNobody hturn) hedit
  cases edit with
  | add l => exact hasked.elim
  | remove l => exact ⟨l, hasked.2, rfl⟩

end

/-! ### Further shutdowns -/

/-- **A step of a further shutdown changes the listeners of a bus only if a member has come back.** -/
theorem IsStepOf.comesBack (h : x.IsStepOf (e'.shutdown cast name) m) (hsame : e.Evolves e')
    (hgone : ∀ l ∈ e.members, ∃ k, i ≤ k ∧ k < n ∧ x.edit e.bus k = some (.remove l)) (hnm : n ≤ m)
    (hchanged : x.listeners b (m + 1) ≠ x.listeners b m) : x.ComesBack e i n m := by
  cases hedit : x.edit b m with
  | none =>
    refine absurd ?_ hchanged
    rw [listeners_def, listeners_def, listeners_of_none hedit]
  | some edit =>
    obtain ⟨u, hchanges⟩ := changes_of_edit hedit
    have hwithdraws : Op.Withdraws e'.bus e'.members (.edit b edit) :=
      h.edit Ensemble.shutdown_withdraws hedit
    rw [hsame.bus, hsame.members] at hwithdraws
    cases edit with
    | add l => exact hwithdraws.elim
    | remove l =>
      obtain ⟨rfl, hl⟩ := hwithdraws
      -- He is there to be removed, though he has been removed before.
      have hthere : l ∈ x.listeners e.bus m := by
        by_contra habsent
        refine hchanged ?_
        rw [hchanges.listeners, Edit.apply, List.filter_eq_self]
        intro l' hl'
        exact decide_eq_true fun heq => habsent (heq ▸ hl')
      obtain ⟨k, hk, hkn, hremoved⟩ := hgone l hl
      obtain ⟨k', hk', hlt, hadded⟩ :=
        exists_added_of_removed hremoved (Nat.lt_of_lt_of_le hkn hnm) hthere
      exact ⟨l, hl, k, k', hk, hkn, hremoved, hk', hlt, hadded⟩

/-- **A further shutdown leaves the listeners as they are**, if nobody else changes them meanwhile and no
member comes back. -/
theorem Returns.listeners_eq {next : ShutdownSummary × Ensemble → Program A Outcome}
    {report : ShutdownSummary × Ensemble} {i' n' : Nat}
    (h : x.Returns t calls (e'.shutdown cast name) next i' n' tr report) (hsame : e.Evolves e')
    (hgone : ∀ l ∈ e.members, ∃ k, i ≤ k ∧ k < n ∧ x.edit e.bus k = some (.remove l)) (hni' : n ≤ i')
    (halone : ∀ m, i' ≤ m → m < n' → x.edit b m ≠ none → x.IsOwn t calls.length m)
    (hnot : ¬ x.ComesBack e i n n') : x.listeners b n' = x.listeners b i' := by
  have hstep : ∀ m, i' ≤ m → m < n' → x.listeners b (m + 1) = x.listeners b m := by
    intro m hm hmn'
    by_contra hchanged
    have hown : x.IsOwn t calls.length m := by
      refine halone m hm hmn' fun hnone => hchanged ?_
      rw [listeners_def, listeners_def, listeners_of_none hnone]
    have hmine : x.IsStepOf (e'.shutdown cast name) m := ⟨t, calls, next, i', h.amid m hm hmn', hown⟩
    exact hnot ((hmine.comesBack hsame hgone (Nat.le_trans hni' hm) hchanged).mono (Nat.le_of_lt hmn'))
  have hle := h.through.le
  clear h hnot halone
  induction hle with
  | refl => rfl
  | @step n' hle ih =>
    rw [hstep n' hle (Nat.lt_succ_self n')]
    exact ih fun m hm hmn' => hstep m hm (Nat.lt_succ_of_lt hmn')

end Machine.Execution

/-! ### The main result -/

/-- **Members leave the bus last, and nobody leaves with them.**  From building on all modules and listeners of
an ensemble are registered, whatever is asked of it, until a shutdown has run its hooks, told the bus and
waited for the workers, unless it is not the first one, or somebody else has removed one of them.  Then they
go, and the list is what it was without them; and the steps of any later shutdown change no list unless one of
them has come back. -/
theorem members_leave_last (x : Execution w) (cast : Cast) (name : String)
    -- Task `t` has built the ensemble,
    (a : Blueprint) (bus : BusId) (k : Except LaunchFailure Ensemble → Program A Outcome) (t : TaskId)
    (calls : Calls A) (i n : Nat) (tr : List (Exchange A)) (e : Ensemble)
    (hbuild : x.Returns t calls (a.build cast bus) k i n tr (.ok e))
    -- something has been asked of it,
    (T : List (Request × List (Exchange A))) (e' : Ensemble) (hstory : Story cast name e T e')
    -- and task `t'` shuts it down.
    (next : ShutdownSummary × Ensemble → Program A Outcome) (t' : TaskId) (calls' : Calls A)
    (passes : List Pass) (i' j : Nat) (hij : i' ≤ j) (huncut : x.Uncut t' calls'.length i' j)
    (hk : (x.state i').core t' = some ⟨.running (e'.shutdown cast name >>= next), calls', passes⟩) :
    -- While the hooks are run, the bus is told and the workers are waited for, all members stay, if nothing
    -- but building, a launch or this shutdown itself has taken one off the bus until then;
    (∀ m, i' ≤ m → m ≤ j → (∀ k, i' ≤ k → k < m →
        x.Amid t' calls' (e'.windUp cast name) (fun r => e'.goOff cast r >>= next) i' k) →
      (∀ k, i ≤ k → k < m → ∀ l ∈ e.members, x.edit e.bus k = some (.remove l) →
        x.IsStepOf (a.build cast bus) k ∨ (∃ e₁ : Ensemble, x.IsStepOf (e₁.launch cast name) k) ∨
          i' ≤ k ∧ x.IsOwn t' calls'.length k) →
      x.Stays e n m) ∧
    -- and that is still going on,
    ((∀ m, i' ≤ m → m ≤ j →
        x.Amid t' calls' (e'.windUp cast name) (fun r => e'.goOff cast r >>= next) i' m) ∨
    -- or it is done, and the members go;
    ∃ n₁ tr₁ r, n₁ ≤ j ∧
      x.Returns t' calls' (e'.windUp cast name) (fun r => e'.goOff cast r >>= next) i' n₁ tr₁ r ∧
      ((∀ m, n₁ ≤ m → m ≤ j → x.Amid t' calls' (e'.goOff cast r) next n₁ m) ∨
      -- then all others are left as they were,
      ∃ n₂ tr₂ report, n₂ ≤ j ∧ x.Returns t' calls' (e'.goOff cast r) next n₁ n₂ tr₂ report ∧
        (x.Alone e.bus t' n₁ n₂ →
          x.listeners e.bus n₂ = (x.listeners e.bus n₁).filter fun l => l ∉ e.members) ∧
        -- and a later shutdown changes nothing unless one of the members has come back.
        ∀ (T' : List (Request × List (Exchange A))) (e'' : Ensemble), Story cast name e T' e'' →
          (∀ b m, n₂ ≤ m → x.IsStepOf (e''.shutdown cast name) m →
            x.listeners b (m + 1) ≠ x.listeners b m → x.ComesBack e n₁ n₂ m) ∧
          ∀ (t'' : TaskId) (calls'' : Calls A) (next'' : ShutdownSummary × Ensemble → Program A Outcome)
            (i'' n'' : Nat) (tr'' : List (Exchange A)) (report' : ShutdownSummary × Ensemble), n₂ ≤ i'' →
            x.Returns t'' calls'' (e''.shutdown cast name) next'' i'' n'' tr'' report' →
            (∀ m, i'' ≤ m → m < n'' → x.edit e.bus m ≠ none → x.IsOwn t'' calls''.length m) →
            ¬ x.ComesBack e n₁ n₂ n'' → x.listeners e.bus n'' = x.listeners e.bus i'')) := by
  have hsame : e.Evolves e' := hstory.evolves
  refine ⟨fun m hm hmj hamid hquiet => ?_, ?_⟩
  · -- Whoever builds, launches or winds up removes nobody.
    refine hbuild.stays fun k hk hkm l hl hremoved => ?_
    rcases hquiet k hk hkm l hl hremoved with hbuilds | ⟨e₁, hlaunches⟩ | ⟨hi', hown⟩
    · exact hbuilds.edit Blueprint.build_builds hremoved
    · exact hlaunches.edit Ensemble.launch_launches hremoved
    · exact (hamid k hi' hkm).edit Ensemble.windUp_spares hown hremoved
  rw [Ensemble.shutdown_eq_windUp, bind_assoc] at hk
  rcases Execution.followed huncut hij hk with hamid | ⟨n₁, tr₁, r, hn₁, hwound⟩
  · exact .inl hamid
  refine .inr ⟨n₁, tr₁, r, hn₁, hwound, ?_⟩
  have hsame₁ : e.Evolves { e' with slots := r.1.slots } :=
    hsame.trans (Ensemble.windUp_evolves hwound.run)
  obtain ⟨passes₁, hk₁⟩ := hwound.after
  rcases Execution.followed (huncut.tail hwound.through.le) hn₁ hk₁ with
    hamid | ⟨n₂, tr₂, report, hn₂, hleft⟩
  · exact .inl hamid
  refine .inr ⟨n₂, tr₂, report, hn₂, hleft, hleft.listeners_eq_filter hsame₁, fun T' e'' hstory' => ?_⟩
  have hgone := hleft.removes hsame₁
  refine ⟨fun b m hm hstep hchanged => hstep.comesBack hstory'.evolves hgone hm hchanged, ?_⟩
  intro t'' calls'' next'' i'' n'' tr'' report' hi'' hshut halone hnot
  exact hshut.listeners_eq hstory'.evolves hgone hi'' halone hnot

set_option maxRecDepth 4000 in
/-- Somebody else stays on the bus when the members leave it. -/
theorem members_leave_last_lifetime : ∃ n₁ n₂, n₁ ≤ n₂ ∧ n₂ ≤ 172 ∧
    (Execution.lifetime false).Stays (.required .unstarted false) 26 n₁ ∧
    (Execution.lifetime false).listeners 0 n₂ = ((Execution.lifetime false).listeners 0 n₁).filter
      fun l => l ∉ (Ensemble.required .unstarted false).members := by
  obtain ⟨tr, hbuild⟩ := Execution.lifetime_built false
  obtain ⟨T, hstory⟩ := Execution.lifetime_story
  have hwithin : ∀ n, n ≤ 172 → 132 ≤ n →
      (((Execution.lifetime false).state n).core 0).any (Core.isWithin 0) = true := by
    decide +kernel
  have hremoves : ∀ m, m < 172 → (Execution.lifetime false).removes 0 m = true → 132 ≤ m ∧
      (Execution.lifetime false).turn m = some 0 ∧
      (((Execution.lifetime false).state m).core 0).map (fun k => k.calls.length) = some 0 := by
    decide +kernel
  have halone : ∀ m, m < 172 → (Execution.lifetime false).turn m ≠ some 0 →
      (Execution.lifetime false).edit 0 m = none := by
    decide +kernel
  have hgone : 0 ∉ (Execution.lifetime false).listeners 0 172 := by decide +kernel
  have hend : ((Execution.lifetime false).state 172).core 0 = some ⟨.running
      (Program.parted (⟨[], []⟩, .required .shutdown true)), [], []⟩ := rfl
  have hquiet : ∀ m, 5 ≤ m → m < 172 → ∀ l ∈ (Ensemble.required .unstarted false).members,
      (Execution.lifetime false).edit 0 m = some (.remove l) →
        132 ≤ m ∧ (Execution.lifetime false).IsOwn 0 ([] : Calls .bare).length m := by
    intro m _ hm l _ hedit
    obtain ⟨hlater, hturn, hlevel⟩ := hremoves m hm (by rw [Execution.removes, hedit])
    exact ⟨hlater, hturn, Option.map_eq_some_iff.1 hlevel⟩
  obtain ⟨hstay, hamid | ⟨n₁, _, r, hn₁, hwound, hleaving | ⟨n₂, _, _, hn₂, hleft, hfilter, -⟩⟩⟩ :=
    members_leave_last (Execution.lifetime false) .sample "sample" Blueprint.required 0
      (Program.lived false) 0 [] 5 26 tr (.required .unstarted false) hbuild T _ hstory Program.parted 0 [] []
      132 172 (by decide) (Execution.uncut_of_isWithin hwithin) rfl
  · have hstays := hstay 172 (by decide) (Nat.le_refl _) (fun m hm hmj => hamid m hm (Nat.le_of_lt hmj))
      fun m hm hmj l hl hedit => .inr (.inr (hquiet m hm hmj l hl hedit))
    exact absurd (hstays 172 (by decide) (Nat.le_refl _) List.mem_cons_self) hgone
  · -- What the main task asks for at the end is not asked for while members leave.
    obtain ⟨op, hop, hserves⟩ :=
      (hleaving 172 hn₁ (Nat.le_refl _)).serves (Ensemble.leave_dismisses _ _) hend rfl
    obtain rfl : .sleep 1 = op := hserves
    exact hop.elim
  · have hstays := hstay n₁ hwound.through.le hn₁ hwound.amid fun m hm hmn₁ l hl hedit =>
      .inr (.inr (hquiet m hm (Nat.lt_of_lt_of_le hmn₁ hn₁) l hl hedit))
    refine ⟨n₁, n₂, hleft.through.le, hn₂, hstays, hfilter fun m _ hm => ?_⟩
    exact halone m (Nat.lt_of_lt_of_le hm hn₂)

end Orchestra
