import Orchestra.Proofs.LaunchSequence
import Orchestra.Proofs.Lifecycle

/-!
# Modules are called after those they need

* `Callee.InOrder` — a call of a module is not made before one of a module it needs, unless that
  one belongs to a later phase;
* `Ensemble.Arranged.launchCalls_inOrder` — so it is for all calls of a launch;
* `calls_in_order` — the calls of the first launch, and the order of calls in every story.
-/

namespace Orchestra

variable {A : Application} {cast : Cast} {name : String} {e₀ e : Ensemble} {m d : ListenerId}

/-- Of two calls, the first is no hook of `m` in a phase as late as that of the second, a hook of `d`.
Shutdown hooks of `d` do not count. -/
def Callee.InOrder (m d : ListenerId) (x y : Callee) : Prop :=
  ∀ p q kit kit', x = .hook m q kit → y = .hook d p kit' → p ≠ .shutdown → q.rank < p.rank

/-- Of two calls, the first is no shutdown hook of `d` while the second is one of `m`. -/
def Callee.InClosingOrder (m d : ListenerId) (x y : Callee) : Prop :=
  ∀ kit kit', x = .hook d .shutdown kit → y ≠ .hook m .shutdown kit'

namespace Ensemble

theorem StartsAfter.ne (h : e.StartsAfter cast m d) : m ≠ d := by
  intro heq
  subst heq
  obtain ⟨i, _, _, hne⟩ := h
  exact hne rfl

/-- Within a phase nobody is called before those he needs. -/
theorem Arranged.phase_pairwise (h : e.Arranged cast) (hafter : e.StartsAfter cast m d) (p : Phase) :
    (e.slots.map fun s => s.hook p).Pairwise fun x y =>
      ∀ q q' kit kit', x = .hook m q kit → y ≠ .hook d q' kit' := by
  have hordered := h.ordered
  rw [modules, List.pairwise_map] at hordered
  rw [List.pairwise_map]
  refine hordered.imp fun hst q q' kit kit' hx hy => hst ?_
  rwa [(Callee.hook.inj hx).1, (Callee.hook.inj hy).1]

theorem Arranged.launchCalls_inOrder (h : e.Arranged cast) (hafter : e.StartsAfter cast m d) :
    e.launchCalls.Pairwise (Callee.InOrder m d) := by
  have hphase : ∀ p : Phase,
      (e.slots.map fun s => s.hook p).Pairwise (Callee.InOrder m d) := fun p =>
    (h.phase_pairwise hafter p).imp fun hxy q q' kit kit' hx hy _ =>
      absurd hy (hxy q' q kit kit' hx)
  have hlater : ∀ {p q : Phase}, p.rank < q.rank → ∀ x ∈ e.slots.map (fun s => s.hook p),
      ∀ y ∈ e.slots.map (fun s => s.hook q), Callee.InOrder m d x y := by
    intro p q hpq x hx y hy p' q' kit kit' hxm hyd _
    obtain ⟨s, _, hs⟩ := List.mem_map.1 hx
    obtain ⟨t, _, ht⟩ := List.mem_map.1 hy
    obtain ⟨_, rfl, _⟩ := Callee.hook.inj (hs.trans hxm)
    obtain ⟨_, rfl, _⟩ := Callee.hook.inj (ht.trans hyd)
    exact hpq
  have hprepare : ∀ x ∈ e.listeners.map Callee.prepare, ∀ y, Callee.InOrder m d x y := by
    intro x hx y p q kit kit' hxm _ _
    obtain ⟨l, _, rfl⟩ := List.mem_map.1 hx
    cases hxm
  have hprepare' : ∀ x, ∀ y ∈ e.listeners.map Callee.prepare, Callee.InOrder m d x y := by
    intro x y hy p q kit kit' _ hyd _
    obtain ⟨l, _, rfl⟩ := List.mem_map.1 hy
    cases hyd
  refine List.pairwise_append.2 ⟨List.pairwise_append.2 ⟨hphase .assertion, ?_, ?_⟩,
    List.pairwise_flatMap.2 ⟨fun p _ => hphase p, ?_⟩, ?_⟩
  · exact List.pairwise_of_forall_mem_list fun x hx y _ => hprepare x hx y
  · exact fun x _ y hy => hprepare' x y hy
  · have hranks : Phase.startup.Pairwise fun p q => p.rank < q.rank := by decide
    exact hranks.imp hlater
  · intro x hx y hy
    obtain ⟨p, hp, hy⟩ := List.mem_flatMap.1 hy
    rcases List.mem_append.1 hx with hx | hx
    · have hrank : ∀ p ∈ Phase.startup, Phase.assertion.rank < p.rank := by decide
      exact hlater (hrank p hp) x hx y hy
    · exact hprepare x hx y

/-- The calls of all phases are made in order. -/
theorem Arranged.lifeCalls_inOrder (h : e.Arranged cast) (hafter : e.StartsAfter cast m d) :
    e.lifeCalls.Pairwise (Callee.InOrder m d) := by
  have hclosing : ∀ x, ∀ y ∈ e.closingSlots.map (fun s => s.hook .shutdown),
      Callee.InOrder m d x y := by
    intro x y hy p q kit kit' _ hyd hp
    obtain ⟨s, _, hs⟩ := List.mem_map.1 hy
    exact absurd (Callee.hook.inj (hs.trans hyd)).2.1.symm hp
  refine List.pairwise_append.2 ⟨h.launchCalls_inOrder hafter, ?_, fun x _ y hy => hclosing x y hy⟩
  exact List.pairwise_of_forall_mem_list fun x _ y hy => hclosing x y hy

/-- In the reverse order modules are shut down before those they need. -/
theorem Arranged.lifeCalls_inClosingOrder (h : e.Arranged cast) (hafter : e.StartsAfter cast m d)
    (hreverse : e.config.closingOrder = .reverse) :
    e.lifeCalls.Pairwise (Callee.InClosingOrder m d) := by
  have hlaunch : ∀ x ∈ e.launchCalls, ∀ y, Callee.InClosingOrder m d x y := by
    intro x hx y kit kit' hxd
    rw [hxd] at hx
    exact absurd (of_hook_mem_launchCalls hx).1 (by decide)
  refine List.pairwise_append.2 ⟨?_, ?_, fun x hx y _ => hlaunch x hx y⟩
  · exact List.pairwise_of_forall_mem_list fun x hx y _ => hlaunch x hx y
  · rw [closingSlots, hreverse]
    show (e.slots.reverse.map fun s => s.hook .shutdown).Pairwise _
    rw [List.map_reverse, List.pairwise_reverse]
    exact (h.phase_pairwise hafter .shutdown).imp fun hxy kit kit' hyd hxm =>
      hxy _ _ kit' kit hxm hyd

end Ensemble

/-- In calls that are in order, a hook of `d` stands before one of `m` in the same or a later phase. -/
theorem index_lt_of_inOrder {calls : List Callee} (h : calls.Pairwise (Callee.InOrder m d))
    (hne : m ≠ d) {i j : Nat} {p q : Phase} {kit kit' : Kit}
    (hi : calls[i]? = some (.hook d p kit)) (hj : calls[j]? = some (.hook m q kit'))
    (hp : p ≠ .shutdown) (hpq : p.rank ≤ q.rank) : i < j := by
  obtain ⟨hi', hi⟩ := List.getElem?_eq_some_iff.1 hi
  obtain ⟨hj', hj⟩ := List.getElem?_eq_some_iff.1 hj
  rcases Nat.lt_trichotomy i j with hlt | rfl | hlt
  · exact hlt
  · exact absurd (Callee.hook.inj (hi.symm.trans hj)).1.symm hne
  · have hrank := List.pairwise_iff_getElem.1 h j i hj' hi' hlt p q kit' kit hj hi hp
    exact absurd hrank (Nat.not_lt.2 hpq)

theorem index_lt_of_inClosingOrder {calls : List Callee}
    (h : calls.Pairwise (Callee.InClosingOrder m d)) (hne : m ≠ d) {i j : Nat} {kit kit' : Kit}
    (hi : calls[i]? = some (.hook m .shutdown kit))
    (hj : calls[j]? = some (.hook d .shutdown kit')) : i < j := by
  obtain ⟨hi', hi⟩ := List.getElem?_eq_some_iff.1 hi
  obtain ⟨hj', hj⟩ := List.getElem?_eq_some_iff.1 hj
  rcases Nat.lt_trichotomy i j with hlt | rfl | hlt
  · exact hlt
  · exact absurd (Callee.hook.inj (hi.symm.trans hj)).1 hne
  · exact absurd hi (List.pairwise_iff_getElem.1 h j i hj' hi' hlt kit' kit hj)

/-- **Calls are made in order.**  The first launch makes the calls that its agenda plans, and no others.
In every story a hook of a module that is needed is called before the hooks, of the same and of
later phases, of those that need it; and if modules are shut down in the reverse order, its shutdown
hook is called after theirs. -/
theorem calls_in_order {T : List (Request × List (Exchange A))} (hbuilt : Built A cast e₀)
    (hstory : Story cast name e₀ T e) :
    ((∀ x ∈ T, x.1 = .shutdown) → e.modules.Nodup ∧ e.listeners.Nodup ∧
      ∀ (o : Outcomes) (σ : Answerer A) (past : List (Exchange A)), σ.IsObliging → σ.Realizes o →
        ∃ tr r, (e.launch cast name).play σ past = (tr, some r) ∧
          calleesOf (deeds tr) = e.plannedCalls cast o) ∧
    ∀ m d, e₀.StartsAfter cast m d →
      (∀ (i j : Nat) (p q : Phase) (kit kit' : Kit),
        (calleesOf (deeds (exchanges T)))[i]? = some (.hook d p kit) →
        (calleesOf (deeds (exchanges T)))[j]? = some (.hook m q kit') →
        p ≠ .shutdown → p.rank ≤ q.rank → i < j) ∧
      (e₀.config.closingOrder = .reverse → ∀ (i j : Nat) (kit kit' : Kit),
        (calleesOf (deeds (exchanges T)))[i]? = some (.hook m .shutdown kit) →
        (calleesOf (deeds (exchanges T)))[j]? = some (.hook d .shutdown kit') → i < j) := by
  constructor
  · intro hfirst
    obtain ⟨rfl, _⟩ := Story.eq_of_shutdowns hbuilt hstory hfirst
    refine ⟨hbuilt.arranged.nodup_modules, hbuilt.arranged.nodup_listeners, ?_⟩
    intro o σ past hobliging hσ
    have hasked : (e.launch (A := A) cast name).Only fun op => Nonempty op.Answer :=
      Ensemble.only_launch
    obtain ⟨tr, r, hplay, hrun, hgave⟩ := Program.exists_play hobliging hasked past
    exact ⟨tr, r, hplay, Ensemble.calls_of_course hbuilt.arranged hbuilt.untouched
      (Ensemble.launch_course hrun) (hgave.follows_of_realizes hσ)⟩
  · intro m d hafter
    obtain ⟨C, hC, hexchanges, _⟩ := hstory.chronicle
    have hcalls := (Chronicle.biography hbuilt.untouched hC).callees_sublist
    rw [hexchanges] at hcalls
    have harranged := hbuilt.arranged
    constructor
    · intro i j p q kit kit' hi hj hp hpq
      exact index_lt_of_inOrder ((harranged.lifeCalls_inOrder hafter).sublist hcalls) hafter.ne hi hj
        hp hpq
    · intro hreverse i j kit kit' hi hj
      exact index_lt_of_inClosingOrder
        ((harranged.lifeCalls_inClosingOrder hafter hreverse).sublist hcalls) hafter.ne hi hj

/-- The gateway needs the credentials; the module that fails `init` is not called again. -/
theorem calls_in_order_sample :
    (∃ tr r, (Ensemble.sample.launch (A := .bare) Cast.sample "sample").play
        (.prompt Outcomes.sample) [] = (tr, some r) ∧
      phasesOf 3 (calleesOf (deeds tr)) = [.assertion, .init]) ∧
    ∃ (T : List (Request × List (Exchange .bare))) (e : Ensemble),
      T.map Prod.fst = [.launch, .shutdown] ∧ Story Cast.sample "sample" Ensemble.sample T e ∧
      (∀ (i j : Nat) (p q : Phase) (kit kit' : Kit),
        (calleesOf (deeds (exchanges T)))[i]? = some (.hook 0 p kit) →
        (calleesOf (deeds (exchanges T)))[j]? = some (.hook 4 q kit') →
        p ≠ .shutdown → p.rank ≤ q.rank → i < j) ∧
      ∀ (i j : Nat) (kit kit' : Kit),
        (calleesOf (deeds (exchanges T)))[i]? = some (.hook 4 .shutdown kit) →
        (calleesOf (deeds (exchanges T)))[j]? = some (.hook 0 .shutdown kit') → i < j := by
  constructor
  · have horder := calls_in_order (built_sample (A := .bare))
      (.start : Story Cast.sample "sample" Ensemble.sample [] _)
    obtain ⟨_, _, hcalls⟩ := horder.1 (by simp)
    obtain ⟨tr, r, hplay, hcallees⟩ := hcalls Outcomes.sample (.prompt Outcomes.sample) []
      (Answerer.isObliging_prompt _) (Answerer.realizes_prompt _)
    exact ⟨tr, r, hplay, by rw [hcallees]; rfl⟩
  · obtain ⟨tr₁, e₁, h₁⟩ := Request.exists_done .bare (r := .launch) (by decide) Cast.sample
      "sample" Ensemble.sample
    obtain ⟨tr₂, e₂, h₂⟩ := Request.exists_done .bare (r := .shutdown) (by decide) Cast.sample
      "sample" e₁
    have hstory := (History.start.next h₁).next h₂
    have hafter : Ensemble.sample.StartsAfter Cast.sample 4 0 :=
      ⟨_, rfl, by decide, by decide⟩
    obtain ⟨hbefore, hclosing⟩ := (calls_in_order built_sample hstory).2 4 0 hafter
    exact ⟨_, e₂, rfl, hstory, hbefore, hclosing rfl⟩

end Orchestra
