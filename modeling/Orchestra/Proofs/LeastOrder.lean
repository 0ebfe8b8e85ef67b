import Orchestra.Proofs.Orderability
import Orchestra.Proofs.Uniqueness

/-!
# The order that is found is the least one

Of all orders in which the needs are met, the sort finds the one whose weights come first in the order of
the dictionary.

* `TypeCatalogue.CanFollow` — a kind can be placed after certain others;
* `TypeCatalogue.IsOrder` — an order of the listed kinds in which the needs are met;
* `TypeCatalogue.IsGreedy` — at every place stands the first, by weight and name, of the kinds that could
  stand there;
* `Sorting.isGreedy_after` — what has been placed is greedy, since the ready kinds are kept in order;
* `TypeCatalogue.IsGreedy.unique` — nothing but the listed kinds and their entries decides such an order;
* `TypeCatalogue.IsGreedy.least` — every other order in which the needs are met has greater weights;
* `Sorting.placed_afterFrom` — nor does the order in which the tables go through their entries;
* `startOrder_is_least` — all of it for the order in which the modules start.
-/

namespace Orchestra

/-! ### Orders of the listed kinds -/

namespace TypeCatalogue

/-- The weight of a kind; one that is not known has none. -/
def weightOf (c : TypeCatalogue) (k : Kind) : Nat := ((c.find? k).map TypeInfo.weight).getD 0

/-- The kind `k` can be placed after those of `before`: it is listed and not among them, and the listed
kinds that it needs are. -/
structure CanFollow (c : TypeCatalogue) (listed before : List Kind) (k : Kind) : Prop where
  isListed : k ∈ listed
  unplaced : k ∉ before
  needs : ∀ i, c.find? k = some i → ∀ d ∈ i.needs, d ∈ listed → d ∈ before

/-- Every listed kind stands in the order once, after the listed kinds that it needs. -/
structure IsOrder (c : TypeCatalogue) (listed order : List Kind) : Prop where
  nodup : order.Nodup
  mem_iff : ∀ k, k ∈ order ↔ k ∈ listed
  needs : ∀ before k after, order = before ++ k :: after →
    ∀ i, c.find? k = some i → ∀ d ∈ i.needs, d ∈ listed → d ∈ before

/-- At every place stands the first, by weight and name, of the kinds that can be placed there. -/
def IsGreedy (c : TypeCatalogue) (listed order : List Kind) : Prop :=
  ∀ before k after, order = before ++ k :: after → c.CanFollow listed before k ∧
    ∀ j, c.CanFollow listed before j → readyBefore (c.weightOf k, k) (c.weightOf j, j) = true

variable {c c' : TypeCatalogue} {listed listed' before after order order' : List Kind} {k : Kind}

theorem canFollow_iff : c.CanFollow listed before k ↔
    k ∈ listed ∧ k ∉ before ∧ openCount c listed before k = 0 := by
  rw [openCount_eq_zero_iff]
  constructor
  · intro h
    refine ⟨h.isListed, h.unplaced, fun d hd => ?_⟩
    obtain ⟨hlisted, i, hfind, hneed⟩ := mem_listedNeeds.1 hd
    exact h.needs i hfind d hneed hlisted
  · intro h
    obtain ⟨hlisted, hunplaced, hneeds⟩ := h
    exact ⟨hlisted, hunplaced, fun i hfind d hneed hd => hneeds d (mem_listedNeeds.2 ⟨hd, i, hfind, hneed⟩)⟩

theorem IsOrder.canFollow (h : c.IsOrder listed order) (hsplit : order = before ++ k :: after) :
    c.CanFollow listed before k := by
  have hnodup := h.nodup
  rw [hsplit] at hnodup
  refine ⟨(h.mem_iff k).1 (by simp [hsplit]), fun hmem => ?_, h.needs before k after hsplit⟩
  exact (List.nodup_append.1 hnodup).2.2 k hmem k List.mem_cons_self rfl

theorem IsOrder.perm (h : c.IsOrder listed order) (h' : c.IsOrder listed order') : order.Perm order' :=
  (List.perm_ext_iff_of_nodup h.nodup h'.nodup).2 fun k => (h.mem_iff k).trans (h'.mem_iff k).symm

theorem CanFollow.congr (hlisted : ∀ k, k ∈ listed' ↔ k ∈ listed)
    (hfind : ∀ k ∈ listed, c'.find? k = c.find? k) (h : c.CanFollow listed before k) :
    c'.CanFollow listed' before k := by
  refine ⟨(hlisted k).2 h.isListed, h.unplaced, fun i hi d hneed hd => ?_⟩
  rw [hfind k h.isListed] at hi
  exact h.needs i hi d hneed ((hlisted d).1 hd)

theorem IsOrder.congr_listed (hlisted : ∀ k, k ∈ listed' ↔ k ∈ listed) (h : c.IsOrder listed order) :
    c.IsOrder listed' order := by
  refine ⟨h.nodup, fun k => (h.mem_iff k).trans (hlisted k).symm, ?_⟩
  intro before k after hsplit i hi d hneed hd
  exact h.needs before k after hsplit i hi d hneed ((hlisted d).1 hd)

theorem weightOf_congr (h : c'.find? k = c.find? k) : c'.weightOf k = c.weightOf k := by
  rw [weightOf, weightOf, h]

theorem IsGreedy.congr (hlisted : ∀ k, k ∈ listed' ↔ k ∈ listed)
    (hfind : ∀ k ∈ listed, c'.find? k = c.find? k) (h : c.IsGreedy listed order) :
    c'.IsGreedy listed' order := by
  intro before k after hsplit
  obtain ⟨hk, hfirst⟩ := h before k after hsplit
  refine ⟨hk.congr hlisted hfind, fun j hj => ?_⟩
  have hj' : c.CanFollow listed before j :=
    hj.congr (fun i => (hlisted i).symm) fun i hi => (hfind i ((hlisted i).1 hi)).symm
  rw [weightOf_congr (hfind k hk.isListed), weightOf_congr (hfind j hj'.isListed)]
  exact hfirst j hj'

end TypeCatalogue

/-! ### Which ready entry goes first -/

theorem readyBefore_iff {a b : Nat × Kind} :
    readyBefore a b = true ↔ a.1 < b.1 ∨ a.1 = b.1 ∧ a.2.name ≤ b.2.name := by
  simp [readyBefore]

theorem readyBefore_total (a b : Nat × Kind) : readyBefore a b = true ∨ readyBefore b a = true := by
  rw [readyBefore_iff, readyBefore_iff]
  rcases Nat.lt_trichotomy a.1 b.1 with hlt | heq | hgt
  · exact .inl (.inl hlt)
  · rcases String.le_total a.2.name b.2.name with hle | hle
    · exact .inl (.inr ⟨heq, hle⟩)
    · exact .inr (.inr ⟨heq.symm, hle⟩)
  · exact .inr (.inl hgt)

theorem readyBefore_trans (a b d : Nat × Kind) (hab : readyBefore a b = true)
    (hbd : readyBefore b d = true) : readyBefore a d = true := by
  rw [readyBefore_iff] at *
  rcases hab with hab | ⟨hab, hname⟩
  · rcases hbd with hbd | ⟨hbd, -⟩
    · exact .inl (hab.trans hbd)
    · exact .inl (hbd ▸ hab)
  · rcases hbd with hbd | ⟨hbd, hname'⟩
    · exact .inl (hab ▸ hbd)
    · exact .inr ⟨hab.trans hbd, String.le_trans hname hname'⟩

theorem readyBefore_antisymm {a b : Nat × Kind} (hab : readyBefore a b = true)
    (hba : readyBefore b a = true) : a = b := by
  rw [readyBefore_iff] at *
  have hweight : a.1 = b.1 := by omega
  have hname : a.2.name = b.2.name :=
    String.le_antisymm (hab.resolve_left (by omega)).2 (hba.resolve_left (by omega)).2
  exact Prod.ext hweight (congrArg Kind.mk hname)

/-! ### There is one greedy order, and it is the least -/

/-- Two different lists of the same length part at some place. -/
theorem exists_parting {α : Type} {l l' : List α} (hlength : l.length = l'.length) (hne : l ≠ l') :
    ∃ before a b after after', l = before ++ a :: after ∧ l' = before ++ b :: after' ∧ a ≠ b := by
  induction l generalizing l' with
  | nil => exact absurd (List.length_eq_zero_iff.1 hlength.symm).symm hne
  | cons a rest ih =>
    cases l' with
    | nil => cases hlength
    | cons b rest' =>
      by_cases hab : a = b
      · subst hab
        have hrest : rest ≠ rest' := fun heq => hne (by rw [heq])
        obtain ⟨before, x, y, after, after', rfl, rfl, hxy⟩ := ih (Nat.succ.inj hlength) hrest
        exact ⟨a :: before, x, y, after, after', rfl, rfl, hxy⟩
      · exact ⟨[], a, b, rest, rest', rfl, rfl, hab⟩

namespace TypeCatalogue

variable {c c' : TypeCatalogue} {listed order order' : List Kind}

/-- **There is one greedy order.**  Where two of them parted, each would have to go first. -/
theorem IsGreedy.unique (h : c.IsGreedy listed order) (h' : c.IsGreedy listed order')
    (hlength : order.length = order'.length) : order = order' := by
  by_contra hne
  obtain ⟨before, a, b, after, after', hsplit, hsplit', hab⟩ := exists_parting hlength hne
  obtain ⟨ha, hfirst⟩ := h before a after hsplit
  obtain ⟨hb, hfirst'⟩ := h' before b after' hsplit'
  exact hab (congrArg Prod.snd (readyBefore_antisymm (hfirst b hb) (hfirst' a ha)))

theorem Sound.eq_of_weightOf (h : c.Sound) {a b : Kind} (ha : c.contains a = true)
    (hb : c.contains b = true) (heq : c.weightOf a = c.weightOf b) : a = b := by
  obtain ⟨i, hi⟩ := Option.isSome_iff_exists.1 ha
  obtain ⟨j, hj⟩ := Option.isSome_iff_exists.1 hb
  simp only [weightOf, hi, hj, Option.map_some, Option.getD_some] at heq
  obtain ⟨himem, rfl⟩ := h.find?_iff.1 hi
  obtain ⟨hjmem, rfl⟩ := h.find?_iff.1 hj
  rw [List.inj_on_of_nodup_map h.weights himem hjmem heq]

/-- **The greedy order is the least one.**  Where another order parts from it, the other one has a kind
that could have been chosen and was not, which is a heavier one. -/
theorem IsGreedy.least (hc : c.Sound) (hknows : c.Knows listed) (hgreedy : c.IsGreedy listed order)
    (h : c.IsOrder listed order) (h' : c.IsOrder listed order') :
    order' = order ∨ order.map c.weightOf < order'.map c.weightOf := by
  by_cases hne : order' = order
  · exact .inl hne
  · right
    obtain ⟨before, a, b, after, after', rfl, rfl, hab⟩ :=
      exists_parting (h.perm h').length_eq (Ne.symm hne)
    obtain ⟨ha, hfirst⟩ := hgreedy before a after rfl
    have hb : c.CanFollow listed before b := h'.canFollow rfl
    have hle : c.weightOf a ≤ c.weightOf b := by
      rcases readyBefore_iff.1 (hfirst b hb) with hlt | ⟨heq, -⟩
      · exact hlt.le
      · exact heq.le
    have hweight : c.weightOf a ≠ c.weightOf b := fun heq =>
      hab (hc.eq_of_weightOf (hknows a ha.isListed) (hknows b hb.isListed) heq)
    rw [List.map_append, List.map_append, List.map_cons, List.map_cons]
    exact List.Lex.append_left _ (.rel (Nat.lt_of_le_of_ne hle hweight)) _

end TypeCatalogue

/-! ### The sort is greedy -/

theorem lookup_filterMap_pair {β : Type} (f : Kind → Option β) (ks : List Kind) (k : Kind) :
    (ks.filterMap fun a => (f a).map fun b => (a, b)).lookup k = if k ∈ ks then f k else none := by
  induction ks with
  | nil => rfl
  | cons a rest ih =>
    by_cases hk : k = a
    · subst hk
      cases hf : f k with
      | none => simp [hf, ih]
      | some b => simp [hf]
    · have hb : (k == a) = false := by simpa using hk
      cases hf : f a with
      | none => simp [hf, ih, hk]
      | some b => simp [hf, List.lookup_cons, hb, ih, hk]

/-- The table of weights holds the weight of every listed kind. -/
theorem weightIn_weightTable (types : TypeCatalogue) {listed : List Kind} {k : Kind} (hk : k ∈ listed) :
    weightIn (weightTable types listed) k = (types.find? k).map TypeInfo.weight := by
  have htable : weightTable types listed = listed.filterMap fun a =>
      ((types.find? a).map TypeInfo.weight).map fun w => (a, w) := by
    simp only [weightTable, Option.map_map, Function.comp_def]
  rw [weightIn, htable, lookup_filterMap_pair (fun a => (types.find? a).map TypeInfo.weight), if_pos hk]

theorem readyEntry_weightTable (types : TypeCatalogue) {listed : List Kind} {k : Kind}
    (hk : k ∈ listed) : readyEntry (weightTable types listed) k = (types.weightOf k, k) := by
  rw [readyEntry, weightIn_weightTable types hk, TypeCatalogue.weightOf]

namespace Sorting

variable {types : TypeCatalogue} {listed : List Kind} {table : List (Kind × Nat)} {s : Sorting}

/-- The ready kinds are in order. -/
def InOrder (s : Sorting) : Prop := s.ready.Pairwise fun a b => readyBefore a b = true

theorem pairwise_insertReady (e : Nat × Kind) {ready : List (Nat × Kind)}
    (h : ready.Pairwise fun a b => readyBefore a b = true) :
    (insertReady e ready).Pairwise fun a b => readyBefore a b = true :=
  pairwise_insertBy readyBefore_total readyBefore_trans e h

theorem InOrder.close (h : s.InOrder) (k : Kind) : (close table s k).InOrder := by
  unfold Sorting.close
  split
  · exact h
  · split
    · exact pairwise_insertReady _ h
    · exact h

theorem InOrder.foldl_close (h : s.InOrder) (ks : List Kind) : (ks.foldl (Sorting.close table) s).InOrder := by
  induction ks generalizing s with
  | nil => exact h
  | cons k rest ih => exact ih (h.close k)

theorem InOrder.step (h : s.InOrder) : (s.step types listed table).InOrder := by
  unfold Sorting.step
  split
  · exact h
  next hready =>
    refine InOrder.foldl_close ?_ _
    rw [InOrder, hready] at h
    exact (List.pairwise_cons.1 h).2

theorem pairwise_foldl_insertReady (ks : List Kind) {ready : List (Nat × Kind)}
    (h : ready.Pairwise fun a b => readyBefore a b = true) :
    (ks.foldl (fun r k => insertReady (readyEntry table k) r) ready).Pairwise
      fun a b => readyBefore a b = true := by
  induction ks generalizing ready with
  | nil => exact h
  | cons k rest ih => exact ih (pairwise_insertReady _ h)

theorem inOrder_after (types : TypeCatalogue) (listed : List Kind) (n : Nat) :
    (after types listed n).InOrder := by
  induction n with
  | zero => exact pairwise_foldl_insertReady _ .nil
  | succ n ih => exact ih.step

theorem Sound.mem_ready_iff (h : Sound types listed s) {e : Nat × Kind} :
    e ∈ s.ready ↔ ∃ k, types.CanFollow listed s.placed k ∧ e = (types.weightOf k, k) := by
  rw [h.mem_ready]
  constructor
  · intro hyp
    obtain ⟨k, hk, hplaced, hopen, rfl⟩ := hyp
    exact ⟨k, TypeCatalogue.canFollow_iff.2 ⟨hk, hplaced, hopen⟩, readyEntry_weightTable types hk⟩
  · intro hyp
    obtain ⟨k, hk, rfl⟩ := hyp
    obtain ⟨hlisted, hplaced, hopen⟩ := TypeCatalogue.canFollow_iff.1 hk
    exact ⟨k, hlisted, hplaced, hopen, (readyEntry_weightTable types hlisted).symm⟩

/-- The kind that stands first among the ready ones is the first of those that can be placed. -/
theorem Sound.first_of_ready (h : Sound types listed s) (hs : s.InOrder) {e : Nat × Kind}
    {rest : List (Nat × Kind)} (hready : s.ready = e :: rest) :
    e = (types.weightOf e.2, e.2) ∧ types.CanFollow listed s.placed e.2 ∧
      ∀ j, types.CanFollow listed s.placed j → readyBefore e (types.weightOf j, j) = true := by
  obtain ⟨k, hk, rfl⟩ := h.mem_ready_iff.1 (hready ▸ List.mem_cons_self)
  refine ⟨rfl, hk, fun j hj => ?_⟩
  have hmem : (types.weightOf j, j) ∈ s.ready := h.mem_ready_iff.2 ⟨j, hj, rfl⟩
  rw [InOrder, hready, List.pairwise_cons] at hs
  rw [hready] at hmem
  rcases List.mem_cons.1 hmem with heq | hmem
  · rw [heq]
    exact (readyBefore_total _ _).elim id id
  · exact hs.1 _ hmem

/-- Placing the first of the kinds that can be placed keeps an order greedy. -/
theorem isGreedy_snoc {placed : List Kind} {k : Kind} (h : types.IsGreedy listed placed)
    (hk : types.CanFollow listed placed k)
    (hfirst : ∀ j, types.CanFollow listed placed j →
      readyBefore (types.weightOf k, k) (types.weightOf j, j) = true) :
    types.IsGreedy listed (placed ++ [k]) := by
  intro before a after hsplit
  rcases List.eq_nil_or_concat after with rfl | ⟨init, last, rfl⟩
  · obtain ⟨rfl, heq⟩ := List.append_inj' hsplit rfl
    rw [List.singleton_inj] at heq
    subst heq
    exact ⟨hk, hfirst⟩
  · have hlast : placed ++ [k] = (before ++ a :: init) ++ [last] := by
      rw [hsplit, List.concat_eq_append, List.append_assoc, List.cons_append]
    exact h before a init (List.append_inj' hlast rfl).1

/-- **The sort is greedy**: what has been placed is so after every step. -/
theorem isGreedy_after (types : TypeCatalogue) (hl : listed.Nodup) (n : Nat) :
    types.IsGreedy listed (after types listed n).placed := by
  induction n with
  | zero =>
    intro before k rest hsplit
    simp [after, start] at hsplit
  | succ n ih =>
    have hsound := sound_after types hl n
    cases hready : (after types listed n).ready with
    | nil =>
      rw [after, step, hready]
      exact ih
    | cons e rest =>
      obtain ⟨he, hk, hfirst⟩ := hsound.first_of_ready (inOrder_after types listed n) hready
      have hentry : e = readyEntry (weightTable types listed) e.2 := by
        rw [readyEntry_weightTable types hk.isListed, ← he]
      rw [hentry] at hready
      rw [after, (hsound.step_cons hready).1]
      refine isGreedy_snoc ih hk ?_
      rwa [← he]

theorem Sound.isOrder (h : Sound types listed s) (hlength : s.placed.length = listed.length) :
    types.IsOrder listed s.placed := by
  refine ⟨h.nodup_placed, fun k => ⟨h.placed_listed k, h.placed_of_length hlength⟩, ?_⟩
  intro before k after hsplit i hfind d hneed hd
  exact h.needs_before before k after hsplit d (mem_listedNeeds.2 ⟨hd, i, hfind, hneed⟩)

end Sorting

/-! ### The tables may be in any order -/

namespace Sorting

/-- The state before anything is placed, when the tables of weights and of open needs are gone through in
certain orders. -/
def startFrom (weights : List (Kind × Nat)) (needs : List (Kind × Int)) : Sorting where
  openNeeds := needs
  ready := ((needs.filter fun e => e.2 = 0).map Prod.fst).foldl
    (fun r k => insertReady (readyEntry weights k) r) []
  placed := []

/-- The state after `n` steps from there. -/
def afterFrom (types : TypeCatalogue) (listed : List Kind) (weights : List (Kind × Nat))
    (needs : List (Kind × Int)) : Nat → Sorting
  | 0 => startFrom weights needs
  | n + 1 => step types listed weights (afterFrom types listed weights needs n)

/-- Two states that differ in the order of their tables only. -/
structure Alike (s s' : Sorting) : Prop where
  opens : ∀ k, s'.openOf k = s.openOf k
  ready : s'.ready = s.ready
  placed : s'.placed = s.placed

theorem after_eq_afterFrom (types : TypeCatalogue) (listed : List Kind) (n : Nat) :
    after types listed n =
      afterFrom types listed (weightTable types listed) (start types listed).openNeeds n := by
  induction n with
  | zero => rfl
  | succ n ih => rw [after, afterFrom, ih]

theorem lookup_eq_find? {β : Type} (l : List (Kind × β)) (k : Kind) :
    l.lookup k = (l.find? fun e => e.1 = k).map Prod.snd := by
  induction l with
  | nil => rfl
  | cons e rest ih =>
    obtain ⟨a, b⟩ := e
    by_cases hk : k = a
    · subst hk
      simp
    · have hb : (k == a) = false := by simpa using hk
      simp [List.lookup_cons, hb, Ne.symm hk, ih]

theorem lookup_perm {β : Type} {l l' : List (Kind × β)} (hd : (l.map Prod.fst).Nodup) (hp : l'.Perm l)
    (k : Kind) : l'.lookup k = l.lookup k := by
  rw [lookup_eq_find?, lookup_eq_find?, find?_key_perm hd hp.symm k]

theorem lookup_map_replace {β : Type} (l : List (Kind × β)) (k j : Kind) (b : β) :
    (l.map fun e => if e.1 = k then (k, b) else e).lookup j =
      if j = k then (l.lookup k).map fun _ => b else l.lookup j := by
  induction l with
  | nil => simp
  | cons e rest ih =>
    obtain ⟨a, b'⟩ := e
    rw [List.map_cons]
    by_cases hak : a = k
    · subst hak
      by_cases hja : j = a
      · simp [hja]
      · have hb : (j == a) = false := by simpa using hja
        rw [if_neg hja] at ih ⊢
        rw [if_pos rfl, List.lookup_cons, List.lookup_cons, hb]
        exact ih
    · have hka : (k == a) = false := by simpa using Ne.symm hak
      rw [if_neg hak]
      by_cases hja : j = a
      · subst hja
        simp [hak]
      · have hb : (j == a) = false := by simpa using hja
        simp [List.lookup_cons, hb, hka, ih]

variable {types : TypeCatalogue} {listed : List Kind} {weights weights' : List (Kind × Nat)}
  {needs needs' : List (Kind × Int)} {s s' : Sorting}

theorem Alike.close (h : Alike s s') (hw : ∀ k, weightIn weights' k = weightIn weights k) (k : Kind) :
    Alike (Sorting.close weights s k) (Sorting.close weights' s' k) := by
  unfold Sorting.close
  rw [h.opens k]
  cases hopen : s.openOf k with
  | none => exact h
  | some n =>
    have hneeds : ∀ j, (s'.openNeeds.map fun e => if e.1 = k then (k, n - 1) else e).lookup j =
        (s.openNeeds.map fun e => if e.1 = k then (k, n - 1) else e).lookup j := by
      intro j
      have hj := h.opens j
      have hk := h.opens k
      rw [openOf, openOf] at hj hk
      rw [lookup_map_replace, lookup_map_replace, hj, hk]
    dsimp only
    split
    · exact ⟨hneeds, by simp only [h.ready, hw], h.placed⟩
    · exact ⟨hneeds, h.ready, h.placed⟩

theorem Alike.step (h : Alike s s') (hw : ∀ k, weightIn weights' k = weightIn weights k) :
    Alike (s.step types listed weights) (s'.step types listed weights') := by
  have hfold : ∀ (ks : List Kind) {t t' : Sorting}, Alike t t' →
      Alike (ks.foldl (Sorting.close weights) t) (ks.foldl (Sorting.close weights') t') := by
    intro ks
    induction ks with
    | nil => exact fun ht => ht
    | cons k rest ih => exact fun ht => ih (ht.close hw k)
  unfold Sorting.step
  rw [h.ready]
  cases s.ready with
  | nil => exact h
  | cons e rest => exact hfold _ ⟨h.opens, rfl, by simp only [h.placed]⟩

theorem perm_foldl_insertReady (ks : List Kind) (ready : List (Nat × Kind)) :
    (ks.foldl (fun r k => insertReady (readyEntry weights k) r) ready).Perm
      (ks.map (readyEntry weights) ++ ready) := by
  induction ks generalizing ready with
  | nil => exact .refl _
  | cons k rest ih =>
    rw [List.foldl_cons, List.map_cons, List.cons_append]
    exact (ih _).trans (((perm_insertBy _ ready).append_left _).trans List.perm_middle)

theorem alike_startFrom (hw : ∀ k, weightIn weights' k = weightIn weights k)
    (hneeds : (needs.map Prod.fst).Nodup) (hp : needs'.Perm needs) :
    Alike (startFrom weights needs) (startFrom weights' needs') := by
  have hentry : readyEntry weights' = readyEntry weights := by
    funext k
    rw [readyEntry, readyEntry, hw]
  refine ⟨lookup_perm hneeds hp, ?_, rfl⟩
  simp only [startFrom, hentry]
  -- the same entries in order, whatever the order in which they were put in
  refine List.Perm.eq_of_pairwise (fun a b _ _ => readyBefore_antisymm)
    (pairwise_foldl_insertReady _ .nil) (pairwise_foldl_insertReady _ .nil) ?_
  have hfree : (((needs'.filter fun e => e.2 = 0).map Prod.fst).map (readyEntry weights)).Perm
      (((needs.filter fun e => e.2 = 0).map Prod.fst).map (readyEntry weights)) :=
    ((hp.filter _).map _).map _
  exact ((perm_foldl_insertReady _ []).trans (hfree.append_right _)).trans
    (perm_foldl_insertReady _ []).symm

theorem sublist_weightTable (types : TypeCatalogue) (listed : List Kind) :
    ((weightTable types listed).map Prod.fst).Sublist listed := by
  induction listed with
  | nil => exact .slnil
  | cons k rest ih =>
    cases hfind : types.find? k with
    | none => simpa [weightTable, hfind] using ih.cons k
    | some i => simpa [weightTable, hfind] using ih

/-- **The order of the tables does not show.** -/
theorem placed_afterFrom (hl : listed.Nodup) (hw : weights.Perm (weightTable types listed))
    (hp : needs.Perm (start types listed).openNeeds) (n : Nat) :
    (afterFrom types listed weights needs n).placed = (after types listed n).placed := by
  have hweights : ∀ k, weightIn weights k = weightIn (weightTable types listed) k :=
    lookup_perm ((sublist_weightTable types listed).nodup hl) hw
  have hneeds : ((start types listed).openNeeds.map Prod.fst).Nodup := by
    simpa [start, Function.comp_def] using hl
  have halike : Alike (after types listed n) (afterFrom types listed weights needs n) := by
    rw [after_eq_afterFrom]
    induction n with
    | zero => exact alike_startFrom hweights hneeds hp
    | succ n ih => exact ih.step hweights
  exact halike.placed

end Sorting

/-! ### The order in which the modules start -/

/-- The listed kinds in the order in which the sort places them. -/
def sortedKinds (kinds : List Kind) (types : TypeCatalogue) : List Kind :=
  (Sorting.after types (distinctKinds kinds) (distinctKinds kinds).length).placed

section Start

variable {kinds kinds' : List Kind} {types types' : TypeCatalogue}

theorem startOrder_eq_ok_iff {positions : List Nat} : startOrder kinds types = .ok positions ↔
    types.Knows kinds ∧ ¬ types.IsCyclic kinds ∧
      positions = (sortedKinds kinds types).flatMap (positionsOf kinds) := by
  have hplaced := Sorting.length_placed_after_iff types (nodup_distinctKinds kinds)
  have hcyclic : types.IsCyclic (distinctKinds kinds) ↔ types.IsCyclic kinds := by
    rw [TypeCatalogue.IsCyclic, TypeCatalogue.IsCyclic,
      TypeCatalogue.isBefore_congr fun _ => mem_distinctKinds]
  rw [hcyclic] at hplaced
  by_cases hknows : types.Knows kinds
  · rw [startOrder_of_knows hknows, ← hplaced]
    dsimp only
    split
    next hlength => simp [hknows, hlength, sortedKinds, eq_comm]
    next hlength => simp [hlength]
  · obtain ⟨name, herror⟩ := (startOrder_decides kinds types).1.2 hknows
    simp [herror, hknows]

theorem isGreedy_sortedKinds (kinds : List Kind) (types : TypeCatalogue) :
    types.IsGreedy kinds (sortedKinds kinds types) :=
  (Sorting.isGreedy_after types (nodup_distinctKinds kinds) _).congr (fun _ => mem_distinctKinds.symm)
    fun _ _ => rfl

theorem isOrder_sortedKinds (h : ¬ types.IsCyclic kinds) :
    types.IsOrder kinds (sortedKinds kinds types) := by
  have hl := nodup_distinctKinds kinds
  have hacyclic : ¬ types.IsCyclic (distinctKinds kinds) := by
    rwa [TypeCatalogue.IsCyclic, TypeCatalogue.isBefore_congr fun _ => mem_distinctKinds]
  have hlength := (Sorting.length_placed_after_iff types hl).2 hacyclic
  exact ((Sorting.sound_after types hl _).isOrder hlength).congr_listed fun _ => mem_distinctKinds.symm

/-- **Only the set of listed kinds and their entries count.** -/
theorem sortedKinds_congr (hkinds : ∀ k, k ∈ kinds' ↔ k ∈ kinds)
    (hfind : ∀ k ∈ kinds, types'.find? k = types.find? k) (h : ¬ types.IsCyclic kinds) :
    ¬ types'.IsCyclic kinds' ∧ sortedKinds kinds' types' = sortedKinds kinds types := by
  have hbefore : types'.IsBefore kinds' = types.IsBefore kinds := by
    funext d k
    rw [TypeCatalogue.IsBefore, TypeCatalogue.IsBefore, hkinds, hkinds]
    by_cases hk : k ∈ kinds
    · rw [hfind k hk]
    · simp [hk]
  have h' : ¬ types'.IsCyclic kinds' := by rwa [TypeCatalogue.IsCyclic, hbefore]
  have hgreedy := (isGreedy_sortedKinds kinds types).congr hkinds hfind
  have hlength : (sortedKinds kinds' types').length = (sortedKinds kinds types).length := by
    refine List.Perm.length_eq ((List.perm_ext_iff_of_nodup (isOrder_sortedKinds h').nodup
      (isOrder_sortedKinds h).nodup).2 fun k => ?_)
    rw [(isOrder_sortedKinds h').mem_iff, (isOrder_sortedKinds h).mem_iff, hkinds]
  exact ⟨h', (isGreedy_sortedKinds kinds' types').unique hgreedy hlength⟩

theorem pairwise_positionsOf (kinds : List Kind) (k : Kind) : (positionsOf kinds k).Pairwise (· < ·) :=
  List.pairwise_lt_range.filter _

/-- **The order that is found is the least one.**  If the modules of the kinds `kinds` can be ordered at all,
whatever types have been asked for, then there is an order of the kinds, in which their needs are met, such
that:

* the modules of each kind stand together, in the order in which they were added;
* at every place stands the kind with the smallest weight among those that can be placed there;
* every other order in which the needs are met has greater weights, in the order of the dictionary;
* modules in any other order and number, but of the same kinds, start in the same order of kinds, with any
  other catalogue that has the same entries for these kinds;
* the order of kinds does not depend on the orders in which the tables of weights and of open needs are gone
  through. -/
theorem startOrder_is_least {start types : TypeCatalogue} {infos : List TypeInfo}
    (hstart : start = .empty ∨ start = .core) (htypes : start.Follows infos types)
    {kinds : List Kind} {positions : List Nat} (h : startOrder kinds types = .ok positions) :
    ∃ order, types.IsOrder kinds order ∧
      positions = order.flatMap (positionsOf kinds) ∧
      (∀ k, (positionsOf kinds k).Pairwise (· < ·) ∧
        ∀ i, i ∈ positionsOf kinds k ↔ kinds[i]? = some k) ∧
      (∀ before k after, order = before ++ k :: after → types.CanFollow kinds before k ∧
        ∀ j, types.CanFollow kinds before j → types.weightOf k ≤ types.weightOf j) ∧
      (∀ order', types.IsOrder kinds order' →
        order' = order ∨ order.map types.weightOf < order'.map types.weightOf) ∧
      (∀ kinds' types', (∀ k, k ∈ kinds' ↔ k ∈ kinds) →
        (∀ k ∈ kinds, types'.find? k = types.find? k) →
        startOrder kinds' types' = .ok (order.flatMap (positionsOf kinds'))) ∧
      (∀ weights needs, weights.Perm (weightTable types (distinctKinds kinds)) →
        needs.Perm (Sorting.start types (distinctKinds kinds)).openNeeds →
        (Sorting.afterFrom types (distinctKinds kinds) weights needs
          (distinctKinds kinds).length).placed = order) := by
  have hsound : types.Sound := by
    refine htypes.sound ?_
    rcases hstart with rfl | rfl
    · exact TypeCatalogue.sound_empty
    · exact TypeCatalogue.sound_core
  obtain ⟨hknows, hacyclic, hpositions⟩ := startOrder_eq_ok_iff.1 h
  have hgreedy := isGreedy_sortedKinds kinds types
  have horder := isOrder_sortedKinds hacyclic
  refine ⟨sortedKinds kinds types, horder, hpositions,
    fun k => ⟨pairwise_positionsOf kinds k, fun i => mem_positionsOf⟩, ?_,
    fun order' h' => hgreedy.least hsound hknows horder h', ?_,
    fun weights needs hw hp => Sorting.placed_afterFrom (nodup_distinctKinds kinds) hw hp _⟩
  · intro before k after hsplit
    obtain ⟨hk, hfirst⟩ := hgreedy before k after hsplit
    refine ⟨hk, fun j hj => ?_⟩
    rcases readyBefore_iff.1 (hfirst j hj) with hlt | ⟨heq, -⟩
    · exact hlt.le
    · exact heq.le
  · intro kinds' types' hkinds hfind
    obtain ⟨hacyclic', hsame⟩ := sortedKinds_congr hkinds hfind hacyclic
    refine startOrder_eq_ok_iff.2 ⟨fun k hk => ?_, hacyclic', by rw [hsame]⟩
    rw [TypeCatalogue.contains, hfind k ((hkinds k).1 hk)]
    exact hknows k ((hkinds k).1 hk)

/-- Two modules of the gateway, one of the files and one of the database: the credentials, which gateway and
database need, are not listed, so the weights decide, also when the modules are added in another order. -/
theorem startOrder_is_least_core :
    startOrder [.gateway, .io, .gateway, .database] .core = .ok [3, 1, 0, 2] ∧
      ∃ order : List Kind, order.flatMap (positionsOf [.gateway, .io, .gateway, .database]) = [3, 1, 0, 2] ∧
        startOrder [.database, .gateway, .io] .core =
          .ok (order.flatMap (positionsOf [.database, .gateway, .io])) := by
  have h : startOrder [.gateway, .io, .gateway, .database] .core = .ok [3, 1, 0, 2] := by decide
  obtain ⟨order, -, hpositions, -, -, -, hsame, -⟩ := startOrder_is_least (.inr rfl) .start h
  refine ⟨h, order, hpositions.symm, hsame _ _ (fun k => ?_) fun _ _ => rfl⟩
  simp only [List.mem_cons, List.not_mem_nil, or_false]
  tauto

end Start

end Orchestra
