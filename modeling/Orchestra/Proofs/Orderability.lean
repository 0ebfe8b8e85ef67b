import Mathlib.Order.WellFoundedSet
import Orchestra.Proofs.StartOrder

/-!
# Which kinds can be ordered

The sort of the listed kinds finds an order whenever there is one.

* `TypeCatalogue.IsBefore` — one listed kind needs another, or itself;
* `Sorting.ready_after_length` — after as many steps as there are kinds, nothing is left that could be
  placed;
* `TypeCatalogue.NeedsCircle` — a kind needs, in the end, kinds that need each other in a circle;
* `Sorting.Sound.needsCircle` — if a kind is left over then, it does;
* `Sorting.Sound.not_isCyclic` — if none is left over, there is no such circle;
* `startOrder_decides` — what the order is, or why there is none.
-/

namespace Orchestra

/-- Every one of the kinds is in the catalogue. -/
def TypeCatalogue.Knows (c : TypeCatalogue) (kinds : List Kind) : Prop :=
  ∀ k ∈ kinds, c.contains k = true

/-- Among the listed kinds `k` needs `d`, which may be `k` itself. -/
def TypeCatalogue.IsBefore (c : TypeCatalogue) (listed : List Kind) (d k : Kind) : Prop :=
  d ∈ listed ∧ k ∈ listed ∧ ∃ i, c.find? k = some i ∧ d ∈ i.needs

/-- Some listed kinds need each other in a circle, or one of them needs itself. -/
def TypeCatalogue.IsCyclic (c : TypeCatalogue) (listed : List Kind) : Prop :=
  ∃ k, Relation.TransGen (c.IsBefore listed) k k

/-- Following the needs among the listed kinds, one comes from a kind to one that stands on a circle; the
kind may be that one itself. -/
def TypeCatalogue.NeedsCircle (c : TypeCatalogue) (listed : List Kind) (k : Kind) : Prop :=
  ∃ j, Relation.TransGen (c.IsBefore listed) j j ∧ Relation.ReflTransGen (c.IsBefore listed) j k

theorem mem_listedNeeds {types : TypeCatalogue} {listed : List Kind} {d k : Kind} :
    d ∈ listedNeeds types listed k ↔ d ∈ listed ∧ ∃ i, types.find? k = some i ∧ d ∈ i.needs := by
  unfold listedNeeds
  cases types.find? k with
  | none => simp
  | some info => simp [and_comm]

theorem TypeCatalogue.isBefore_congr {c : TypeCatalogue} {listed listed' : List Kind}
    (h : ∀ k, k ∈ listed ↔ k ∈ listed') : c.IsBefore listed = c.IsBefore listed' := by
  funext d k
  simp only [IsBefore, h]

namespace Sorting

variable {types : TypeCatalogue} {listed : List Kind} {s : Sorting}

/-! ### The sort comes to its end -/

theorem Sound.length_placed_le (h : Sound types listed s) : s.placed.length ≤ listed.length :=
  (h.nodup_placed.subperm h.placed_listed).length_le

theorem Sound.placed_of_length (h : Sound types listed s)
    (hlength : s.placed.length = listed.length) {k : Kind} (hk : k ∈ listed) : k ∈ s.placed :=
  ((h.nodup_placed.subperm h.placed_listed).perm_of_length_le hlength.ge).mem_iff.2 hk

/-- As long as there is a ready kind, a step places one. -/
theorem Sound.length_placed_step (h : Sound types listed s) (hready : s.ready ≠ []) :
    (s.step types listed (weightTable types listed)).placed.length = s.placed.length + 1 := by
  obtain ⟨e, rest, hcons⟩ := List.exists_cons_of_ne_nil hready
  obtain ⟨k, -, -, -, rfl⟩ := (h.mem_ready e).1 (hcons ▸ List.mem_cons_self)
  rw [(h.step_cons hcons).1, List.length_append, List.length_singleton]

/-- Every step has placed a kind, unless the sort has come to its end before. -/
theorem ready_or_length_after (types : TypeCatalogue) (hl : listed.Nodup) (n : Nat) :
    (after types listed n).ready = [] ∨ (after types listed n).placed.length = n := by
  induction n with
  | zero => exact .inr rfl
  | succ n ih =>
    have hsound := sound_after types hl n
    by_cases hready : (after types listed n).ready = []
    · left
      rw [after, step, hready]
      exact hready
    · right
      have hlength := ih.resolve_left hready
      rw [after, hsound.length_placed_step hready, hlength]

/-- **The sort comes to its end** in as many steps as there are kinds. -/
theorem ready_after_length (types : TypeCatalogue) (hl : listed.Nodup) :
    (after types listed listed.length).ready = [] := by
  have hsound := sound_after types hl listed.length
  rcases ready_or_length_after types hl listed.length with hready | hlength
  · exact hready
  · refine List.eq_nil_iff_forall_not_mem.2 fun e he => ?_
    obtain ⟨k, hk, hplaced, -⟩ := (hsound.mem_ready e).1 he
    exact hplaced (hsound.placed_of_length hlength hk)

/-! ### What is left over -/

/-- At the end of the sort every kind that is left over needs another one that is. -/
theorem Sound.exists_unplaced_need (h : Sound types listed s) (hready : s.ready = []) {k : Kind}
    (hk : k ∈ listed) (hplaced : k ∉ s.placed) : ∃ d ∉ s.placed, types.IsBefore listed d k := by
  have hopen : openCount types listed s.placed k ≠ 0 := by
    intro hzero
    have hmem := (h.mem_ready _).2 ⟨k, hk, hplaced, hzero, rfl⟩
    rw [hready] at hmem
    cases hmem
  rw [Ne, openCount_eq_zero_iff] at hopen
  push Not at hopen
  obtain ⟨d, hd, hunplaced⟩ := hopen
  obtain ⟨hlisted, hneed⟩ := mem_listedNeeds.1 hd
  exact ⟨d, hunplaced, hlisted, hk, hneed⟩

/-- Those of the kinds left over that `k` needs in the end, `k` itself among them. -/
def leftUnder (types : TypeCatalogue) (listed : List Kind) (s : Sorting) (k : Kind) : Set Kind :=
  {j | j ∈ listed ∧ j ∉ s.placed ∧ Relation.ReflTransGen (types.IsBefore listed) j k}

/-- **What is left over needs a circle.**  Otherwise one of the finitely many kinds left over that it
needs would need none of the others. -/
theorem Sound.needsCircle (h : Sound types listed s) (hready : s.ready = []) {k : Kind}
    (hk : k ∈ listed) (hplaced : k ∉ s.placed) : types.NeedsCircle listed k := by
  by_contra hnone
  have hfinite : (leftUnder types listed s k).Finite :=
    (List.finite_toSet listed).subset fun j hj => hj.1
  have : Finite (leftUnder types listed s k) := hfinite
  have hwf : WellFounded fun a b : leftUnder types listed s k =>
      Relation.TransGen (types.IsBefore listed) a.1 b.1 := by
    have : IsTrans (leftUnder types listed s k) fun a b =>
        Relation.TransGen (types.IsBefore listed) a.1 b.1 := ⟨fun _ _ _ => Relation.TransGen.trans⟩
    have : Std.Irrefl fun a b : leftUnder types listed s k =>
        Relation.TransGen (types.IsBefore listed) a.1 b.1 :=
      ⟨fun j hj => hnone ⟨j.1, hj, j.2.2.2⟩⟩
    exact Finite.wellFounded_of_trans_of_irrefl _
  obtain ⟨j, -, hmin⟩ := hwf.has_min Set.univ ⟨⟨k, hk, hplaced, .refl⟩, trivial⟩
  obtain ⟨d, hd, hbefore⟩ := h.exists_unplaced_need hready j.2.1 j.2.2.1
  exact hmin ⟨d, hbefore.1, hd, j.2.2.2.head hbefore⟩ trivial (.single hbefore)

/-- **If kinds are left over, some need each other in a circle.** -/
theorem Sound.isCyclic (h : Sound types listed s) (hready : s.ready = []) {k : Kind}
    (hk : k ∈ listed) (hplaced : k ∉ s.placed) : types.IsCyclic listed := by
  obtain ⟨j, hcircle, -⟩ := h.needsCircle hready hk hplaced
  exact ⟨j, hcircle⟩

/-- What stands before a kind has a lower place. -/
theorem idxOf_lt_idxOf_of_mem {before after : List Kind} {d k : Kind} (hd : d ∈ before)
    (hk : k ∉ before) : (before ++ k :: after).idxOf d < (before ++ k :: after).idxOf k := by
  rw [List.idxOf_append_of_mem hd, List.idxOf_append_of_notMem hk, List.idxOf_cons_self]
  exact List.idxOf_lt_length_iff.2 hd

/-- A kind stands among the placed kinds after every listed kind that it needs. -/
theorem Sound.idxOf_lt_idxOf (h : Sound types listed s) {d k : Kind} (hk : k ∈ s.placed)
    (hbefore : types.IsBefore listed d k) : s.placed.idxOf d < s.placed.idxOf k := by
  obtain ⟨before, after, hsplit⟩ := List.append_of_mem hk
  have hd : d ∈ before :=
    h.needs_before before k after hsplit d (mem_listedNeeds.2 ⟨hbefore.1, hbefore.2.2⟩)
  have hk' : k ∉ before := by
    have hnodup := h.nodup_placed
    rw [hsplit] at hnodup
    exact fun hmem => (List.nodup_append.1 hnodup).2.2 k hmem k List.mem_cons_self rfl
  rw [hsplit]
  exact idxOf_lt_idxOf_of_mem hd hk'

/-- **If all kinds are placed, none need each other in a circle**: along the needs the places only
go down. -/
theorem Sound.not_isCyclic (h : Sound types listed s) (hall : ∀ k ∈ listed, k ∈ s.placed) :
    ¬ types.IsCyclic listed := by
  intro hcyclic
  obtain ⟨k, hcycle⟩ := hcyclic
  have hless : ∀ a b, types.IsBefore listed a b → s.placed.idxOf a < s.placed.idxOf b :=
    fun a b hab => h.idxOf_lt_idxOf (hall b hab.2.1) hab
  have hchain : Relation.TransGen (· < ·) (s.placed.idxOf k) (s.placed.idxOf k) :=
    hcycle.lift s.placed.idxOf hless
  rw [Relation.transGen_eq_self] at hchain
  exact Nat.lt_irrefl _ hchain

/-- The sort places all the kinds exactly when none need each other in a circle. -/
theorem length_placed_after_iff (types : TypeCatalogue) (hl : listed.Nodup) :
    (after types listed listed.length).placed.length = listed.length ↔
      ¬ types.IsCyclic listed := by
  have hsound := sound_after types hl listed.length
  constructor
  · intro hlength
    exact hsound.not_isCyclic fun k hk => hsound.placed_of_length hlength hk
  · intro hacyclic
    have hall : ∀ k ∈ listed, k ∈ (after types listed listed.length).placed := by
      intro k hk
      by_contra hplaced
      exact hacyclic (hsound.isCyclic (ready_after_length types hl) hk hplaced)
    exact Nat.le_antisymm hsound.length_placed_le (hl.subperm hall).length_le

end Sorting

/-! ### What the order is, or why there is none -/

variable {kinds : List Kind} {types : TypeCatalogue}

theorem firstUnknown_eq_none_iff : firstUnknown types kinds = none ↔ types.Knows kinds := by
  simp [firstUnknown, TypeCatalogue.Knows]

theorem firstUnknown_eq_some_iff {k : Kind} :
    firstUnknown types kinds = some k ↔ ¬ types.contains k ∧
      ∃ before after, kinds = before ++ k :: after ∧ types.Knows before := by
  simp [firstUnknown, List.find?_eq_some_iff_append, TypeCatalogue.Knows]

/-- Kinds that are all known. -/
theorem startOrder_of_knows (h : types.Knows kinds) :
    startOrder kinds types =
      (let listed := distinctKinds kinds
       let final := Sorting.after types listed listed.length
       if final.placed.length = listed.length then .ok (final.placed.flatMap (positionsOf kinds))
       else .error (.cycle (unplaced listed final.placed))) := by
  unfold startOrder
  rw [firstUnknown_eq_none_iff.2 h]

theorem startOrder_unknownKind_iff {name : String} :
    startOrder kinds types = .error (.unknownKind name) ↔
      ∃ k before after, k.name = name ∧ kinds = before ++ k :: after ∧ types.Knows before ∧
        ¬ types.contains k := by
  unfold startOrder
  cases hunknown : firstUnknown types kinds with
  | none =>
    have hknows := firstUnknown_eq_none_iff.1 hunknown
    constructor
    · intro h
      dsimp only at h
      split at h <;> cases h
    · intro h
      obtain ⟨k, before, after, -, rfl, -, hk⟩ := h
      exact absurd (hknows k (by simp)) hk
  | some first =>
    obtain ⟨hfirst, before, after, hsplit, hbefore⟩ := firstUnknown_eq_some_iff.1 hunknown
    constructor
    · intro h
      have hname : first.name = name := by simpa using h
      exact ⟨first, before, after, hname, hsplit, hbefore, hfirst⟩
    · intro h
      obtain ⟨k, before', after', rfl, hsplit', hbefore', hk⟩ := h
      have hsame := firstUnknown_eq_some_iff.2 ⟨hk, before', after', hsplit', hbefore'⟩
      rw [hunknown] at hsame
      rw [Option.some.inj hsame]

/-- Known kinds that need each other in a circle, in other words those that the sort cannot place. -/
theorem startOrder_cycle_iff (h : types.Knows kinds) :
    (∃ names, startOrder kinds types = .error (.cycle names)) ↔ types.IsCyclic kinds := by
  have hsame : types.IsCyclic (distinctKinds kinds) ↔ types.IsCyclic kinds := by
    rw [TypeCatalogue.IsCyclic, TypeCatalogue.IsCyclic,
      TypeCatalogue.isBefore_congr fun _ => mem_distinctKinds]
  have hplaced := Sorting.length_placed_after_iff types (nodup_distinctKinds kinds)
  rw [startOrder_of_knows h, ← hsame]
  dsimp only
  split
  next hlength =>
    simp [hplaced.1 hlength]
  next hlength =>
    simp [not_not.1 (mt hplaced.2 hlength)]

/-- Two positions of an order that was found stand as the needs of their kinds ask. -/
theorem idxOf_lt_idxOf_of_startOrder {positions : List Nat}
    (h : startOrder kinds types = .ok positions) {i j : Nat} {a b : Kind}
    (ha : kinds[i]? = some a) (hb : kinds[j]? = some b) (hafter : types.StartsAfter b a) :
    positions.idxOf i < positions.idxOf j := by
  obtain ⟨-, hperm, hpairwise⟩ := startOrder_ok h
  have hmem : ∀ {n : Nat} {k : Kind}, kinds[n]? = some k → n ∈ positions := fun hn =>
    hperm.mem_iff.2 (List.mem_range.2 (List.getElem?_eq_some_iff.1 hn).1)
  have hi := List.idxOf_lt_length_iff.2 (hmem ha)
  have hj := List.idxOf_lt_length_iff.2 (hmem hb)
  have hne : i ≠ j := by
    intro heq
    subst heq
    obtain ⟨_, _, _, hne⟩ := hafter
    exact hne (Option.some.inj (ha.symm.trans hb))
  rcases Nat.lt_trichotomy (positions.idxOf i) (positions.idxOf j) with hlt | heq | hgt
  · exact hlt
  · exact absurd ((List.idxOf_inj (hmem ha)).1 heq) hne
  · have hnot := List.pairwise_iff_getElem.1 hpairwise _ _ hj hi hgt
    rw [List.getElem_idxOf, List.getElem_idxOf] at hnot
    exact absurd hafter (hnot b a hb ha)

/-- **What the order is, or why there is none.**  The first listed kind that the catalogue lacks is
refused; otherwise a circle of needs among the listed kinds is; otherwise every position stands in
the order once, and after those of the kinds that its own kind needs. -/
theorem startOrder_decides (kinds : List Kind) (types : TypeCatalogue) :
    ((∃ name, startOrder kinds types = .error (.unknownKind name)) ↔ ¬ types.Knows kinds) ∧
      (∀ name, startOrder kinds types = .error (.unknownKind name) ↔
        ∃ k before after, k.name = name ∧ kinds = before ++ k :: after ∧ types.Knows before ∧
          ¬ types.contains k) ∧
      (types.Knows kinds →
        ((∃ names, startOrder kinds types = .error (.cycle names)) ↔ types.IsCyclic kinds)) ∧
      (types.Knows kinds → ¬ types.IsCyclic kinds →
        ∃ positions, startOrder kinds types = .ok positions ∧
          positions.Perm (List.range kinds.length) ∧
          ∀ i j a b, kinds[i]? = some a → kinds[j]? = some b → types.StartsAfter b a →
            positions.idxOf i < positions.idxOf j) := by
  refine ⟨?_, fun name => startOrder_unknownKind_iff, startOrder_cycle_iff, ?_⟩
  · constructor
    · intro h hknows
      obtain ⟨name, hname⟩ := h
      obtain ⟨k, before, after, -, rfl, -, hk⟩ := startOrder_unknownKind_iff.1 hname
      exact hk (hknows k (by simp))
    · intro h
      cases hunknown : firstUnknown types kinds with
      | none => exact absurd (firstUnknown_eq_none_iff.1 hunknown) h
      | some k =>
        obtain ⟨hk, before, after, hsplit, hbefore⟩ := firstUnknown_eq_some_iff.1 hunknown
        exact ⟨k.name, startOrder_unknownKind_iff.2 ⟨k, before, after, rfl, hsplit, hbefore, hk⟩⟩
  · intro hknows hacyclic
    have hcycle := mt (startOrder_cycle_iff hknows).1 hacyclic
    have hfound : ∃ positions, startOrder kinds types = .ok positions := by
      rw [startOrder_of_knows hknows] at hcycle ⊢
      dsimp only at hcycle ⊢
      split at hcycle
      next hlength => exact ⟨_, if_pos hlength⟩
      next => exact absurd ⟨_, rfl⟩ hcycle
    obtain ⟨positions, hpositions⟩ := hfound
    refine ⟨positions, hpositions, (startOrder_ok hpositions).2.1, ?_⟩
    intro i j a b ha hb hafter
    exact idxOf_lt_idxOf_of_startOrder hpositions ha hb hafter

/-- A kind that needs itself, beside one that needs a kind without modules, twice. -/
example :
    startOrder [⟨"b"⟩, ⟨"a"⟩]
      ⟨[⟨⟨"a"⟩, "A", 1, false, [⟨"a"⟩]⟩, ⟨⟨"b"⟩, "B", 2, false, [⟨"c"⟩, ⟨"c"⟩]⟩]⟩
      = .error (.cycle ["a"]) := by decide

end Orchestra
