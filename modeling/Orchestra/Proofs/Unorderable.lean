import Mathlib.Data.String.Basic
import Orchestra.Proofs.LeastOrder

/-!
# The kinds that cannot be ordered

When the sort finds no order, it names the kinds that it could not place.  Those are the kinds that nobody
could have placed.

* `TypeCatalogue.IsLine` — some of the listed kinds, each of which can follow those that stand before it;
* `TypeCatalogue.IsOrderable` — a kind stands in such a line;
* `TypeCatalogue.IsLine.not_needsCircle` — no kind of a line needs a circle, since along the needs the places
  only go down;
* `mem_sortedKinds_iff` — the sort places the kinds that need no circle, and no others;
* `startOrder_eq_cycle_iff` — when the sort finds no order, and what it names then;
* `cycle_names_unorderable` — who is named, and who is not.
-/

namespace Orchestra

/-! ### Lines of kinds -/

namespace TypeCatalogue

/-- Every kind of the line can follow those that stand before it. -/
def IsLine (c : TypeCatalogue) (listed line : List Kind) : Prop :=
  ∀ before k after, line = before ++ k :: after → c.CanFollow listed before k

/-- A kind can be ordered: it stands in a line of listed kinds. -/
def IsOrderable (c : TypeCatalogue) (listed : List Kind) (k : Kind) : Prop :=
  ∃ line, c.IsLine listed line ∧ k ∈ line

/-- Two kinds hang together: from one to the other leads a way along the needs, up or down. -/
def IsConnected (c : TypeCatalogue) (listed : List Kind) : Kind → Kind → Prop :=
  Relation.EqvGen (c.IsBefore listed)

variable {c : TypeCatalogue} {listed line : List Kind} {d k : Kind}

theorem IsGreedy.isLine (h : c.IsGreedy listed line) : c.IsLine listed line :=
  fun before k after hsplit => (h before k after hsplit).1

theorem IsLine.idxOf_lt_idxOf (h : c.IsLine listed line) (hk : k ∈ line)
    (hbefore : c.IsBefore listed d k) : line.idxOf d < line.idxOf k := by
  obtain ⟨before, after, rfl⟩ := List.append_of_mem hk
  have hfollows := h before k after rfl
  obtain ⟨hlisted, -, i, hfind, hneed⟩ := hbefore
  exact Sorting.idxOf_lt_idxOf_of_mem (hfollows.needs i hfind d hneed hlisted) hfollows.unplaced

/-- Along the needs the places only go down, and nobody is left out. -/
theorem IsLine.of_transGen (h : c.IsLine listed line) (hk : k ∈ line)
    (hchain : Relation.TransGen (c.IsBefore listed) d k) :
    d ∈ line ∧ line.idxOf d < line.idxOf k := by
  have hmem : ∀ {d k}, line.idxOf d < line.idxOf k → d ∈ line := fun hlt =>
    List.idxOf_lt_length_iff.1 (hlt.trans_le List.idxOf_le_length)
  induction hchain with
  | single hbefore =>
    have hlt := h.idxOf_lt_idxOf hk hbefore
    exact ⟨hmem hlt, hlt⟩
  | tail _ hbefore ih =>
    have hlt := h.idxOf_lt_idxOf hk hbefore
    obtain ⟨hd, hlt'⟩ := ih (hmem hlt)
    exact ⟨hd, hlt'.trans hlt⟩

/-- **No kind of a line needs a circle.** -/
theorem IsLine.not_needsCircle (h : c.IsLine listed line) (hk : k ∈ line) :
    ¬ c.NeedsCircle listed k := by
  rintro ⟨j, hcircle, hpath⟩
  have hj : j ∈ line := by
    rcases Relation.reflTransGen_iff_eq_or_transGen.1 hpath with heq | hchain
    · exact heq ▸ hk
    · exact (h.of_transGen hk hchain).1
  exact Nat.lt_irrefl _ (h.of_transGen hj hcircle).2

theorem NeedsCircle.isConnected (h : c.NeedsCircle listed k) :
    ∃ j, Relation.TransGen (c.IsBefore listed) j j ∧ c.IsConnected listed j k := by
  obtain ⟨j, hcircle, hpath⟩ := h
  exact ⟨j, hcircle, Relation.EqvGen.reflTransGen_le_eqvGen _ j k hpath⟩

end TypeCatalogue

/-! ### What the sort leaves over -/

variable {kinds : List Kind} {types : TypeCatalogue} {k : Kind} {names : List String}

/-- **The sort places the kinds that need no circle**, and no others. -/
theorem mem_sortedKinds_iff (hk : k ∈ kinds) :
    k ∈ sortedKinds kinds types ↔ ¬ types.NeedsCircle kinds k := by
  have hl := nodup_distinctKinds kinds
  constructor
  · exact fun hplaced => (isGreedy_sortedKinds kinds types).isLine.not_needsCircle hplaced
  · intro hnone
    by_contra hleft
    refine hnone ?_
    have hneeds := (Sorting.sound_after types hl _).needsCircle (Sorting.ready_after_length types hl)
      (mem_distinctKinds.2 hk) hleft
    rwa [TypeCatalogue.NeedsCircle, TypeCatalogue.isBefore_congr fun _ => mem_distinctKinds] at hneeds

/-- A kind can be ordered unless it needs a circle. -/
theorem isOrderable_iff (hk : k ∈ kinds) :
    types.IsOrderable kinds k ↔ ¬ types.NeedsCircle kinds k := by
  constructor
  · rintro ⟨line, hline, hmem⟩
    exact hline.not_needsCircle hmem
  · exact fun hnone =>
      ⟨_, (isGreedy_sortedKinds kinds types).isLine, (mem_sortedKinds_iff hk).2 hnone⟩

/-! ### What is named -/

theorem startOrder_eq_cycle_iff : startOrder kinds types = .error (.cycle names) ↔
    types.Knows kinds ∧ types.IsCyclic kinds ∧
      names = unplaced (distinctKinds kinds) (sortedKinds kinds types) := by
  by_cases hknows : types.Knows kinds
  · rw [← startOrder_cycle_iff hknows, startOrder_of_knows hknows]
    dsimp only
    split
    next => simp
    next => simp [hknows, sortedKinds, eq_comm]
  · obtain ⟨name, herror⟩ := (startOrder_decides kinds types).1.2 hknows
    simp [herror, hknows]

theorem mem_unplaced {listed placed : List Kind} {name : String} :
    name ∈ unplaced listed placed ↔ ∃ k ∈ listed, k ∉ placed ∧ k.name = name := by
  simp [unplaced, mem_sortBy, and_assoc]

/-- The names are in order, and each stands there once. -/
theorem pairwise_unplaced {listed : List Kind} (hl : listed.Nodup) (placed : List Kind) :
    (unplaced listed placed).Pairwise (· < ·) := by
  have hordered : (unplaced listed placed).Pairwise fun a b => decide (a ≤ b) = true := by
    refine pairwise_sortBy (fun a b => ?_) (fun x y z => ?_) _
    · simpa using String.le_total a b
    · simpa using String.le_trans
  have hdistinct : (unplaced listed placed).Pairwise (· ≠ ·) := by
    refine (perm_sortBy _).nodup_iff.2 ((hl.filter _).map fun a b hab => ?_)
    cases a
    cases b
    simpa using hab
  exact (hordered.and hdistinct).imp fun {a b} hab => lt_of_le_of_ne (of_decide_eq_true hab.1) hab.2

/-- **Those are named that cannot be ordered.**  When the modules of some kinds cannot be ordered, although
all of the kinds are known, the refusal names, each once and in the order of their names, the listed kinds
from which the needs lead to a circle, and they are the kinds that stand in no line.  Somebody is named, and
listed kinds only; nobody is named who can be ordered, or who does not hang together with a circle. -/
theorem cycle_names_unorderable (h : startOrder kinds types = .error (.cycle names)) :
    names.Pairwise (· < ·) ∧
      (∀ name, name ∈ names ↔ ∃ k ∈ kinds, k.name = name ∧ types.NeedsCircle kinds k) ∧
      (∀ k ∈ kinds, k.name ∈ names ↔ ¬ types.IsOrderable kinds k) ∧
      names ≠ [] ∧
      (∀ name ∈ names, ⟨name⟩ ∈ kinds) ∧
      (∀ k, (∀ j, Relation.TransGen (types.IsBefore kinds) j j → ¬ types.IsConnected kinds j k) →
        k.name ∉ names) := by
  obtain ⟨-, hcyclic, rfl⟩ := startOrder_eq_cycle_iff.1 h
  have hmem : ∀ name, name ∈ unplaced (distinctKinds kinds) (sortedKinds kinds types) ↔
      ∃ k ∈ kinds, k.name = name ∧ types.NeedsCircle kinds k := by
    intro name
    simp only [mem_unplaced, mem_distinctKinds]
    refine exists_congr fun k => and_congr_right fun hk => ?_
    rw [and_comm, mem_sortedKinds_iff hk, not_not]
  refine ⟨pairwise_unplaced (nodup_distinctKinds kinds) _, hmem, ?_, ?_, ?_, ?_⟩
  · intro k hk
    rw [hmem, isOrderable_iff hk, not_not]
    constructor
    · rintro ⟨⟨name⟩, -, rfl, hneeds⟩
      exact hneeds
    · exact fun hneeds => ⟨k, hk, rfl, hneeds⟩
  · -- the kinds on the circle are listed
    obtain ⟨j, hcircle⟩ := hcyclic
    obtain ⟨d, -, hbefore⟩ := Relation.TransGen.tail'_iff.1 hcircle
    exact List.ne_nil_of_mem ((hmem j.name).2 ⟨j, hbefore.2.1, rfl, j, hcircle, .refl⟩)
  · intro name hname
    obtain ⟨k, hk, rfl, -⟩ := (hmem name).1 hname
    exact hk
  · intro k hapart hname
    obtain ⟨⟨name⟩, -, rfl, hneeds⟩ := (hmem k.name).1 hname
    obtain ⟨j, hcircle, hconnected⟩ := hneeds.isConnected
    exact hapart j hcircle hconnected

/-- Two circles and their surroundings: `a` and `b` need each other, `e` needs itself, twice; `c` needs `a`,
which needs `d`; and `f` stands apart. -/
def tangledTypes : TypeCatalogue :=
  ⟨[⟨⟨"a"⟩, "A", 1, false, [⟨"b"⟩, ⟨"d"⟩]⟩, ⟨⟨"b"⟩, "B", 2, false, [⟨"a"⟩]⟩,
    ⟨⟨"c"⟩, "C", 3, false, [⟨"a"⟩]⟩, ⟨⟨"d"⟩, "D", 4, false, []⟩,
    ⟨⟨"e"⟩, "E", 5, false, [⟨"e"⟩, ⟨"e"⟩]⟩, ⟨⟨"f"⟩, "F", 6, false, [⟨"absent"⟩]⟩]⟩

/-- Modules of all these kinds, two of them of `c`. -/
def tangledKinds : List Kind := [⟨"e"⟩, ⟨"f"⟩, ⟨"c"⟩, ⟨"a"⟩, ⟨"d"⟩, ⟨"b"⟩, ⟨"c"⟩]

/-- Who needs a circle is named, though it stands on none; whom the circle needs is not. -/
theorem cycle_names_unorderable_tangled :
    startOrder tangledKinds tangledTypes = .error (.cycle ["a", "b", "c", "e"]) ∧
      tangledTypes.NeedsCircle tangledKinds ⟨"c"⟩ ∧
      tangledTypes.IsOrderable tangledKinds ⟨"d"⟩ := by
  have h : startOrder tangledKinds tangledTypes = .error (.cycle ["a", "b", "c", "e"]) := by
    decide
  obtain ⟨-, hnamed, horderable, -⟩ := cycle_names_unorderable h
  refine ⟨h, ?_, ?_⟩
  · obtain ⟨⟨name⟩, -, rfl, hneeds⟩ := (hnamed "c").1 (by decide)
    exact hneeds
  · exact not_not.1 (mt (horderable ⟨"d"⟩ (by decide)).2 (by decide))

end Orchestra
