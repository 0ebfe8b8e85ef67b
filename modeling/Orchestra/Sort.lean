/-!
# Sorting by insertion

* `insertBy` — puts an item before the first one that it comes before;
* `sortBy` — a list in order; items that neither comes strictly before the other keep their places;
* `perm_sortBy`, `pairwise_sortBy` — the result has the same items, and they are in order.
-/

namespace Orchestra

variable {α : Type} {before : α → α → Bool}

/-- Puts an item before the first one that it comes before. -/
def insertBy (before : α → α → Bool) (a : α) : List α → List α
  | [] => [a]
  | b :: rest => if before a b then a :: b :: rest else b :: insertBy before a rest

/-- A list in order. -/
def sortBy (before : α → α → Bool) : List α → List α
  | [] => []
  | a :: rest => insertBy before a (sortBy before rest)

theorem perm_insertBy (a : α) (l : List α) : (insertBy before a l).Perm (a :: l) := by
  fun_induction insertBy before a l with
  | case1 => exact .refl _
  | case2 => exact .refl _
  | case3 b rest _ ih => exact (ih.cons b).trans (.swap a b rest)

theorem perm_sortBy (l : List α) : (sortBy before l).Perm l := by
  induction l with
  | nil => exact .refl _
  | cons a rest ih => exact (perm_insertBy a _).trans (ih.cons a)

theorem mem_insertBy {a b : α} {l : List α} : b ∈ insertBy before a l ↔ b = a ∨ b ∈ l := by
  rw [(perm_insertBy a l).mem_iff, List.mem_cons]

theorem mem_sortBy {b : α} {l : List α} : b ∈ sortBy before l ↔ b ∈ l :=
  (perm_sortBy l).mem_iff

theorem length_sortBy (l : List α) : (sortBy before l).length = l.length :=
  (perm_sortBy l).length_eq

theorem pairwise_insertBy (total : ∀ a b, before a b ∨ before b a)
    (trans : ∀ a b c, before a b → before b c → before a c) (a : α) {l : List α}
    (h : l.Pairwise fun x y => before x y) :
    (insertBy before a l).Pairwise fun x y => before x y := by
  induction l with
  | nil => simp [insertBy]
  | cons b rest ih =>
    have hb := List.pairwise_cons.1 h
    unfold insertBy
    split
    next hab =>
      refine List.pairwise_cons.2 ⟨fun x hx => ?_, h⟩
      rcases List.mem_cons.1 hx with rfl | hx
      · exact hab
      · exact trans _ _ _ hab (hb.1 x hx)
    next hab =>
      refine List.pairwise_cons.2 ⟨fun x hx => ?_, ih hb.2⟩
      rcases mem_insertBy.1 hx with rfl | hx
      · exact (total x b).resolve_left hab
      · exact hb.1 x hx

theorem pairwise_sortBy (total : ∀ a b, before a b ∨ before b a)
    (trans : ∀ a b c, before a b → before b c → before a c) (l : List α) :
    (sortBy before l).Pairwise fun x y => before x y := by
  induction l with
  | nil => exact .nil
  | cons a rest ih => exact pairwise_insertBy total trans a ih

end Orchestra
