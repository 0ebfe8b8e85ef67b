import Mathlib.Data.List.Perm.Subperm
import Orchestra.StartOrder

/-!
# The starting order respects the needs

* `TypeCatalogue.StartsAfter` — a kind is to start after another one;
* `openCount` — how many needs of a kind are not placed yet;
* `Sorting.Counts`, `Sorting.counts_foldl_close` — closing needs one after another counts down;
* `Sorting.Sound` — what every state of the sort satisfies: the ready kinds are those that are not
  placed and have no open need, and what is placed stands after what it needs;
* `startOrder_ok` — an order that is found holds every position once, and no module stands before
  one that it is to start after.
-/

namespace Orchestra

/-- Modules of kind `k` are to start after modules of the other kind `d`. -/
def TypeCatalogue.StartsAfter (c : TypeCatalogue) (k d : Kind) : Prop :=
  ∃ i, c.find? k = some i ∧ d ∈ i.needs ∧ d ≠ k

/-- The number of listed needs of a kind that are not placed yet, repeats included. -/
def openCount (types : TypeCatalogue) (listed placed : List Kind) (k : Kind) : Nat :=
  ((listedNeeds types listed k).filter (· ∉ placed)).length

/-- The entry of a kind among the ready kinds. -/
def readyEntry (table : List (Kind × Nat)) (k : Kind) : Nat × Kind :=
  ((weightIn table k).getD 0, k)

/-! ### Listed kinds -/

theorem mem_distinctKinds {k : Kind} {ks : List Kind} : k ∈ distinctKinds ks ↔ k ∈ ks := by
  induction ks with
  | nil => simp [distinctKinds]
  | cons a rest ih =>
    by_cases h : k = a <;> simp [distinctKinds, ih, h]

theorem nodup_distinctKinds (ks : List Kind) : (distinctKinds ks).Nodup := by
  induction ks with
  | nil => exact .nil
  | cons a rest ih =>
    refine List.nodup_cons.2 ⟨?_, ih.filter _⟩
    simp

theorem lookup_map_pair {β : Type} {f : Kind → β} {ks : List Kind} {k : Kind} :
    (ks.map fun a => (a, f a)).lookup k = if k ∈ ks then some (f k) else none := by
  induction ks with
  | nil => rfl
  | cons a rest ih =>
    by_cases h : k = a
    · subst h
      simp
    · have hb : (k == a) = false := by simpa using h
      simp [List.lookup_cons, hb, ih, h]

/-- A kind stands among the dependents once for every entry that names it. -/
theorem count_flatMap_needs (needs : Kind → List Kind) (k j : Kind) {ks : List Kind}
    (hks : ks.Nodup) :
    (ks.flatMap fun i => ((needs i).filter (· = k)).map fun _ => i).count j
      = if j ∈ ks then (needs j).count k else 0 := by
  induction ks with
  | nil => rfl
  | cons i rest ih =>
    obtain ⟨hi, hrest⟩ := List.nodup_cons.1 hks
    have hown : (((needs i).filter (· = k)).map fun _ => i).count j
        = if i = j then (needs j).count k else 0 := by
      rw [List.map_const', List.count_replicate]
      by_cases h : i = j
      · subst h
        simp [List.count_eq_length_filter, Bool.beq_eq_decide_eq]
      · simp [h]
    rw [List.flatMap_cons, List.count_append, hown, ih hrest]
    by_cases h : i = j
    · subst h
      simp [hi]
    · simp [h, Ne.symm h]

theorem count_dependents {types : TypeCatalogue} {listed : List Kind} (hl : listed.Nodup)
    {j : Kind} (hj : j ∈ listed) (k : Kind) :
    (dependents types listed k).count j = (listedNeeds types listed j).count k := by
  rw [dependents, count_flatMap_needs _ k j hl, if_pos hj]

theorem mem_listed_of_mem_dependents {types : TypeCatalogue} {listed : List Kind} {j k : Kind}
    (h : j ∈ dependents types listed k) : j ∈ listed := by
  simp only [dependents, List.mem_flatMap, List.mem_map] at h
  obtain ⟨i, hi, _, _, rfl⟩ := h
  exact hi

/-- Placing a kind closes as many needs of another as name it. -/
theorem openCount_snoc (types : TypeCatalogue) {listed placed : List Kind} {k : Kind}
    (hk : k ∉ placed) (j : Kind) :
    openCount types listed placed j
      = openCount types listed (placed ++ [k]) j + (listedNeeds types listed j).count k := by
  unfold openCount
  induction listedNeeds types listed j with
  | nil => rfl
  | cons d rest ih =>
    by_cases hd : d = k
    · subst hd
      simp only [List.filter_cons, hk, not_false_eq_true, decide_true, if_true, List.length_cons,
        List.mem_append, List.mem_singleton, or_true, not_true_eq_false, decide_false,
        Bool.false_eq_true, if_false, List.count_cons_self, ih]
      omega
    · by_cases hp : d ∈ placed
      · simp only [List.filter_cons, hp, not_true_eq_false, decide_false, Bool.false_eq_true,
          if_false, List.mem_append, true_or, List.count_cons_of_ne hd, ih]
      · simp only [List.filter_cons, hp, not_false_eq_true, decide_true, if_true,
          List.length_cons, List.mem_append, List.mem_singleton, hd, or_self,
          List.count_cons_of_ne hd, ih]
        omega

theorem openCount_eq_zero_iff {types : TypeCatalogue} {listed placed : List Kind} {k : Kind} :
    openCount types listed placed k = 0 ↔ ∀ d ∈ listedNeeds types listed k, d ∈ placed := by
  simp [openCount]

namespace Sorting

/-! ### Closing needs -/

theorem mem_insertReady {e x : Nat × Kind} {ready : List (Nat × Kind)} :
    x ∈ insertReady e ready ↔ x = e ∨ x ∈ ready :=
  mem_insertBy

theorem nodup_insertReady {e : Nat × Kind} {ready : List (Nat × Kind)} (he : e ∉ ready)
    (h : ready.Nodup) : (insertReady e ready).Nodup :=
  (perm_insertBy e ready).symm.nodup (List.nodup_cons.2 ⟨he, h⟩)

/-- The open needs are counted by `f`, and every ready kind has been counted down. -/
structure Counts (table : List (Kind × Nat)) (listed : List Kind) (f : Kind → Int)
    (s : Sorting) : Prop where
  opens : s.openNeeds = listed.map fun k => (k, f k)
  closed : ∀ e ∈ s.ready, f e.2 ≤ 0
  nodup : s.ready.Nodup

variable {table : List (Kind × Nat)} {listed : List Kind} {f : Kind → Int} {s : Sorting}

theorem close_placed (s : Sorting) (j : Kind) : (close table s j).placed = s.placed := by
  unfold close
  split
  · rfl
  · split <;> rfl

/-- Closing a need of a listed kind. -/
theorem close_eq (h : s.openNeeds = listed.map fun k => (k, f k)) {j : Kind} (hj : j ∈ listed) :
    close table s j =
      { s with
        openNeeds := listed.map fun k => (k, if k = j then f k - 1 else f k)
        ready := if f j = 1 then insertReady (readyEntry table j) s.ready else s.ready } := by
  have hopen : s.openOf j = some (f j) := by rw [openOf, h, lookup_map_pair, if_pos hj]
  have hneeds : (s.openNeeds.map fun e => if e.1 = j then (j, f j - 1) else e)
      = listed.map fun k => (k, if k = j then f k - 1 else f k) := by
    rw [h, List.map_map]
    refine List.map_congr_left fun k _ => ?_
    by_cases hk : k = j
    · subst hk
      simp
    · simp [hk]
  unfold close
  rw [hopen]
  simp only [hneeds]
  by_cases hone : f j = 1
  · rw [if_pos (by omega), if_pos hone]
    rfl
  · rw [if_neg (by omega), if_neg hone]

theorem Counts.close (h : Counts table listed f s) {j : Kind} (hj : j ∈ listed) :
    Counts table listed (fun k => if k = j then f k - 1 else f k) (close table s j) := by
  rw [close_eq h.opens hj]
  refine ⟨rfl, ?_, ?_⟩
  · intro e he
    have hcases : (e = readyEntry table j ∧ f j = 1) ∨ e ∈ s.ready := by
      by_cases hone : f j = 1
      · rw [if_pos hone] at he
        exact (mem_insertReady.1 he).imp_left fun h => ⟨h, hone⟩
      · rw [if_neg hone] at he
        exact .inr he
    rcases hcases with ⟨rfl, hone⟩ | he
    · simp [readyEntry, hone]
    · have := h.closed e he
      split <;> omega
  · by_cases hone : f j = 1
    · rw [if_pos hone]
      refine nodup_insertReady (fun hmem => ?_) h.nodup
      have hle : f j ≤ 0 := h.closed _ hmem
      omega
    · rw [if_neg hone]
      exact h.nodup

/-- Closing needs one after another: each kind is counted down once for every time it stands in the
list, and becomes ready when it gets to zero. -/
theorem counts_foldl_close {js : List Kind} (hjs : ∀ j ∈ js, j ∈ listed)
    (h : Counts table listed f s) :
    Counts table listed (fun k => f k - js.count k) (js.foldl (Sorting.close table) s) ∧
      (js.foldl (Sorting.close table) s).placed = s.placed ∧
      ∀ e, e ∈ (js.foldl (Sorting.close table) s).ready ↔
        e ∈ s.ready ∨ ∃ j ∈ js, e = readyEntry table j ∧ 1 ≤ f j ∧ f j ≤ js.count j := by
  induction js generalizing s f with
  | nil => exact ⟨by simpa using h, rfl, by simp⟩
  | cons j rest ih =>
    have hj : j ∈ listed := hjs j List.mem_cons_self
    obtain ⟨hcounts, hplaced, hready⟩ :=
      ih (fun i hi => hjs i (List.mem_cons_of_mem _ hi)) (h.close hj)
    refine ⟨?_, hplaced.trans (close_placed s j), fun e => ?_⟩
    · have hf : (fun k => (if k = j then f k - 1 else f k) - (rest.count k : Int))
          = fun k => f k - ((j :: rest).count k : Int) := by
        funext k
        by_cases hk : k = j
        · subst hk
          simp only [if_true, List.count_cons_self]
          omega
        · rw [if_neg hk, List.count_cons_of_ne (Ne.symm hk)]
      rw [List.foldl_cons]
      rwa [hf] at hcounts
    · rw [List.foldl_cons, hready e, close_eq h.opens hj]
      -- `j` becomes ready at once, or later among the rest; another kind only among the rest
      have hstep : e ∈ (if f j = 1 then insertReady (readyEntry table j) s.ready else s.ready) ↔
          e ∈ s.ready ∨ (e = readyEntry table j ∧ f j = 1) := by
        by_cases hone : f j = 1
        · rw [if_pos hone, mem_insertReady]
          simp [hone, or_comm]
        · rw [if_neg hone]
          simp [hone]
      simp only [hstep]
      constructor
      · intro hcases
        rcases hcases with (he | ⟨rfl, hone⟩) | ⟨i, hi, rfl, hlow, hhigh⟩
        · exact .inl he
        · refine .inr ⟨j, List.mem_cons_self, rfl, by omega, ?_⟩
          rw [List.count_cons_self]
          omega
        · refine .inr ⟨i, List.mem_cons_of_mem _ hi, rfl, ?_, ?_⟩
          · by_cases hij : i = j
            · rw [if_pos hij] at hlow
              omega
            · rwa [if_neg hij] at hlow
          · by_cases hij : i = j
            · subst hij
              rw [List.count_cons_self]
              simp only [if_true] at hhigh
              omega
            · rw [List.count_cons_of_ne (Ne.symm hij)]
              rwa [if_neg hij] at hhigh
      · intro hcases
        rcases hcases with he | ⟨i, hi, rfl, hlow, hhigh⟩
        · exact .inl (.inl he)
        · by_cases hij : i = j
          · subst hij
            by_cases hone : f i = 1
            · exact .inl (.inr ⟨rfl, hone⟩)
            · rw [List.count_cons_self] at hhigh
              have hpos : 0 < rest.count i := by omega
              refine .inr ⟨i, List.count_pos_iff.1 hpos, rfl, ?_, ?_⟩ <;> simp only [if_true] <;> omega
          · rw [List.count_cons_of_ne (Ne.symm hij)] at hhigh
            refine .inr ⟨i, (List.mem_cons.1 hi).resolve_left hij, rfl, ?_, ?_⟩
            · rwa [if_neg hij]
            · rwa [if_neg hij]

/-! ### The states of the sort -/

/-- What every state of the sort satisfies. -/
structure Sound (types : TypeCatalogue) (listed : List Kind) (s : Sorting) : Prop where
  opens : s.openNeeds = listed.map fun k => (k, (openCount types listed s.placed k : Int))
  mem_ready : ∀ e, e ∈ s.ready ↔ ∃ k ∈ listed, k ∉ s.placed ∧
    openCount types listed s.placed k = 0 ∧ e = readyEntry (weightTable types listed) k
  nodup_ready : s.ready.Nodup
  nodup_placed : s.placed.Nodup
  placed_listed : ∀ k ∈ s.placed, k ∈ listed
  needs_before : ∀ before k after, s.placed = before ++ k :: after →
    ∀ d ∈ listedNeeds types listed k, d ∈ before

theorem mem_foldl_insertReady {table : List (Kind × Nat)} {ks : List Kind}
    {ready : List (Nat × Kind)} {e : Nat × Kind} :
    e ∈ ks.foldl (fun r k => insertReady (readyEntry table k) r) ready ↔
      e ∈ ready ∨ ∃ k ∈ ks, e = readyEntry table k := by
  induction ks generalizing ready with
  | nil => simp
  | cons k rest ih =>
    rw [List.foldl_cons, ih, mem_insertReady]
    simp only [List.mem_cons, exists_eq_or_imp]
    tauto

theorem nodup_foldl_insertReady {table : List (Kind × Nat)} {ks : List Kind}
    {ready : List (Nat × Kind)} (hks : ks.Nodup) (hr : ready.Nodup)
    (hnew : ∀ k ∈ ks, readyEntry table k ∉ ready) :
    (ks.foldl (fun r k => insertReady (readyEntry table k) r) ready).Nodup := by
  induction ks generalizing ready with
  | nil => exact hr
  | cons k rest ih =>
    obtain ⟨hk, hrest⟩ := List.nodup_cons.1 hks
    refine ih hrest (nodup_insertReady (hnew k List.mem_cons_self) hr) fun j hj hmem => ?_
    rcases mem_insertReady.1 hmem with heq | hmem
    · have hjk : j = k := congrArg Prod.snd heq
      exact hk (hjk ▸ hj)
    · exact hnew j (List.mem_cons_of_mem _ hj) hmem

theorem sound_start (types : TypeCatalogue) {listed : List Kind} (hl : listed.Nodup) :
    Sound types listed (start types listed) := by
  have hcount : ∀ k, openCount types listed [] k = (listedNeeds types listed k).length := by
    intro k
    simp [openCount]
  have hfree : (((listed.map fun k => (k, ((listedNeeds types listed k).length : Int))).filter
      fun e => e.2 = 0).map Prod.fst)
      = listed.filter fun k => (listedNeeds types listed k).length = 0 := by
    rw [List.filter_map, List.map_map]
    simp [Function.comp_def]
  refine ⟨?_, fun e => ?_, ?_, .nil, by simp [start], ?_⟩
  · simp [start, hcount]
  · show e ∈ List.foldl (fun r k => insertReady (readyEntry (weightTable types listed) k) r) []
      _ ↔ _
    rw [hfree, mem_foldl_insertReady]
    simp [start, hcount, and_assoc]
  · show (List.foldl (fun r k => insertReady (readyEntry (weightTable types listed) k) r) []
      _).Nodup
    rw [hfree]
    exact nodup_foldl_insertReady (hl.filter _) .nil (by simp)
  · intro before k after h
    simp [start] at h

/-- Once the first ready kind has been taken, the needs are still counted as before. -/
theorem Sound.counts_taken {types : TypeCatalogue} {listed : List Kind} {s : Sorting}
    (h : Sound types listed s) {e : Nat × Kind} {k : Kind} {rest : List (Nat × Kind)}
    (hready : s.ready = e :: rest) :
    Counts (weightTable types listed) listed (fun j => (openCount types listed s.placed j : Int))
      { s with ready := rest, placed := s.placed ++ [k] } := by
  have hnodup : (e :: rest).Nodup := hready ▸ h.nodup_ready
  refine ⟨h.opens, fun x hx => ?_, (List.nodup_cons.1 hnodup).2⟩
  obtain ⟨j, _, _, hopen, rfl⟩ := (h.mem_ready x).1 (hready ▸ List.mem_cons_of_mem _ hx)
  simp [readyEntry, hopen]

/-- A step with a ready kind `k`: it is placed, the needs that name it are closed, and the kinds
that had no other open need become ready. -/
theorem Sound.step_cons {types : TypeCatalogue} {listed : List Kind} {s : Sorting}
    (h : Sound types listed s) {k : Kind} {rest : List (Nat × Kind)}
    (hready : s.ready = readyEntry (weightTable types listed) k :: rest) :
    (s.step types listed (weightTable types listed)).placed = s.placed ++ [k] ∧
      Counts (weightTable types listed) listed
        (fun j => (openCount types listed s.placed j : Int) - (dependents types listed k).count j)
        (s.step types listed (weightTable types listed)) ∧
      ∀ e, e ∈ (s.step types listed (weightTable types listed)).ready ↔
        e ∈ s.ready ∧ e.2 ≠ k ∨ ∃ j ∈ dependents types listed k,
          e = readyEntry (weightTable types listed) j ∧ 1 ≤ openCount types listed s.placed j ∧
            openCount types listed s.placed j ≤ (dependents types listed k).count j := by
  have hnodup : (readyEntry (weightTable types listed) k :: rest).Nodup := hready ▸ h.nodup_ready
  have hrest : ∀ x, x ∈ rest ↔ x ∈ s.ready ∧ x.2 ≠ k := by
    intro x
    rw [hready, List.mem_cons]
    constructor
    · intro hx
      refine ⟨.inr hx, fun heq => ?_⟩
      obtain ⟨j, _, _, _, rfl⟩ := (h.mem_ready x).1 (hready ▸ List.mem_cons_of_mem _ hx)
      have hjk : j = k := heq
      exact (List.nodup_cons.1 hnodup).1 (hjk ▸ hx)
    · intro hyp
      obtain ⟨rfl | hx, hne⟩ := hyp
      · exact absurd rfl hne
      · exact hx
  have hstep : s.step types listed (weightTable types listed)
      = (dependents types listed k).foldl (Sorting.close (weightTable types listed))
          { s with ready := rest, placed := s.placed ++ [k] } := by
    simp only [Sorting.step, hready, readyEntry]
  obtain ⟨hcounts', hplaced, hmem⟩ :=
    counts_foldl_close (fun j hj => mem_listed_of_mem_dependents hj) (h.counts_taken hready)
  rw [hstep]
  refine ⟨hplaced, hcounts', fun e => ?_⟩
  rw [hmem e, hrest e]
  norm_cast

/-- One step keeps what the states of the sort satisfy. -/
theorem Sound.step {types : TypeCatalogue} {listed : List Kind} (hl : listed.Nodup) {s : Sorting}
    (h : Sound types listed s) :
    Sound types listed (s.step types listed (weightTable types listed)) := by
  cases hready : s.ready with
  | nil => simpa [Sorting.step, hready] using h
  | cons e rest =>
    obtain ⟨k, hk, hkplaced, hkopen, rfl⟩ := (h.mem_ready e).1 (hready ▸ List.mem_cons_self)
    obtain ⟨hplaced, hcounts, hmem⟩ := h.step_cons hready
    have hless : ∀ j ∈ listed, openCount types listed s.placed j
        = openCount types listed (s.placed ++ [k]) j + (dependents types listed k).count j := by
      intro j hj
      rw [count_dependents hl hj, openCount_snoc types hkplaced]
    refine ⟨?_, fun e => ?_, hcounts.nodup, ?_, ?_, ?_⟩
    · rw [hcounts.opens, hplaced]
      refine List.map_congr_left fun j hj => ?_
      have := hless j hj
      simp only [Prod.mk.injEq, true_and]
      omega
    · rw [hmem e, hplaced]
      constructor
      · intro hcases
        rcases hcases with ⟨hold, hne⟩ | ⟨j, hj, rfl, hlow, hhigh⟩
        · obtain ⟨j, hj, hjplaced, hopen, rfl⟩ := (h.mem_ready e).1 hold
          have := hless j hj
          have hjk : j ≠ k := hne
          exact ⟨j, hj, by simp [hjplaced, hjk], by omega, rfl⟩
        · have hlisted := mem_listed_of_mem_dependents hj
          have := hless j hlisted
          -- a placed kind has no open need, so `j` is not placed
          refine ⟨j, hlisted, fun hin => ?_, by omega, rfl⟩
          rcases List.mem_append.1 hin with hin | hin
          · obtain ⟨before, after, hsplit⟩ := List.append_of_mem hin
            have hzero : openCount types listed s.placed j = 0 :=
              openCount_eq_zero_iff.2 fun d hd =>
                hsplit ▸ List.mem_append_left _ (h.needs_before before j after hsplit d hd)
            omega
          · rw [List.mem_singleton.1 hin] at hlow
            omega
      · intro hyp
        obtain ⟨j, hj, hjplaced, hopen, rfl⟩ := hyp
        have hjk : j ≠ k := fun heq => hjplaced (by simp [heq])
        have hjold : j ∉ s.placed := fun hin => hjplaced (List.mem_append_left _ hin)
        have := hless j hj
        by_cases hzero : openCount types listed s.placed j = 0
        · exact .inl ⟨(h.mem_ready _).2 ⟨j, hj, hjold, hzero, rfl⟩, hjk⟩
        · have hpos : 0 < (dependents types listed k).count j := by omega
          exact .inr ⟨j, List.count_pos_iff.1 hpos, rfl, by omega, by omega⟩
    · rw [hplaced, List.nodup_append]
      exact ⟨h.nodup_placed, by simp, by
        intro a ha b hb heq
        subst heq
        exact hkplaced (List.mem_singleton.1 hb ▸ ha)⟩
    · rw [hplaced]
      intro j hj
      rcases List.mem_append.1 hj with hj | hj
      · exact h.placed_listed j hj
      · exact List.mem_singleton.1 hj ▸ hk
    · rw [hplaced]
      intro before j after hsplit d hd
      rcases List.eq_nil_or_concat after with rfl | ⟨init, last, rfl⟩
      · obtain ⟨rfl, hjk⟩ := List.append_inj' hsplit rfl
        rw [List.singleton_inj] at hjk
        subst hjk
        exact openCount_eq_zero_iff.1 hkopen d hd
      · have hlast : s.placed ++ [k] = (before ++ j :: init) ++ [last] := by
          rw [hsplit, List.concat_eq_append, List.append_assoc, List.cons_append]
        obtain ⟨hinit, _⟩ := List.append_inj' hlast rfl
        exact h.needs_before before j init hinit d hd

theorem sound_after (types : TypeCatalogue) {listed : List Kind} (hl : listed.Nodup) (n : Nat) :
    Sound types listed (after types listed n) := by
  induction n with
  | zero => exact sound_start types hl
  | succ n ih => exact ih.step hl

/-- No placed kind stands before one that it is to start after. -/
theorem Sound.pairwise_placed {types : TypeCatalogue} {listed : List Kind} {s : Sorting}
    (h : Sound types listed s) : s.placed.Pairwise fun a b => ¬ types.StartsAfter a b := by
  rw [List.pairwise_iff_getElem]
  intro i j hi hj hij hyp
  obtain ⟨info, hfind, hneed, _⟩ := hyp
  have hlisted : s.placed[j] ∈ listedNeeds types listed s.placed[i] := by
    simp only [listedNeeds, hfind, List.mem_filter, decide_eq_true_eq]
    exact ⟨hneed, h.placed_listed _ (List.getElem_mem hj)⟩
  have hsplit : s.placed = s.placed.take i ++ s.placed[i] :: s.placed.drop (i + 1) := by
    rw [← List.drop_eq_getElem_cons hi, List.take_append_drop]
  have hbefore := h.needs_before _ _ _ hsplit _ hlisted
  obtain ⟨n, hn, heq⟩ := List.getElem_of_mem hbefore
  rw [List.length_take] at hn
  rw [List.getElem_take] at heq
  exact List.pairwise_iff_getElem.1 h.nodup_placed n j (by omega) hj (by omega) heq

end Sorting

/-! ### The order that is found -/

theorem mem_positionsOf {kinds : List Kind} {k : Kind} {i : Nat} :
    i ∈ positionsOf kinds k ↔ kinds[i]? = some k := by
  simp only [positionsOf, List.mem_filter, List.mem_range, decide_eq_true_eq]
  constructor
  · exact fun h => h.2
  · exact fun h => ⟨(List.getElem?_eq_some_iff.1 h).1, h⟩

theorem nodup_flatMap_positionsOf {kinds placed : List Kind} (h : placed.Nodup) :
    (placed.flatMap (positionsOf kinds)).Nodup := by
  refine List.pairwise_flatMap.2 ⟨fun k _ => List.nodup_range.filter _, h.imp ?_⟩
  intro a b hab i hi j hj heq
  subst heq
  have : some a = some b := (mem_positionsOf.1 hi).symm.trans (mem_positionsOf.1 hj)
  exact hab (Option.some.inj this)

/-- **The order that is found.**  Every kind is known, every position stands in the order once, and
no module stands before one that it is to start after. -/
theorem startOrder_ok {kinds : List Kind} {types : TypeCatalogue} {positions : List Nat}
    (h : startOrder kinds types = .ok positions) :
    (∀ k ∈ kinds, types.contains k) ∧ positions.Perm (List.range kinds.length) ∧
      positions.Pairwise fun i j => ∀ a b, kinds[i]? = some a → kinds[j]? = some b →
        ¬ types.StartsAfter a b := by
  unfold startOrder at h
  split at h
  · cases h
  next hunknown =>
    have hl : (distinctKinds kinds).Nodup := nodup_distinctKinds kinds
    have hsound := Sorting.sound_after types hl (distinctKinds kinds).length
    dsimp only at h
    generalize Sorting.after types (distinctKinds kinds) (distinctKinds kinds).length = s at h hsound
    split at h
    next hlength =>
      obtain rfl : s.placed.flatMap (positionsOf kinds) = positions := Except.ok.inj h
      have hperm : s.placed.Perm (distinctKinds kinds) :=
        (hsound.nodup_placed.subperm hsound.placed_listed).perm_of_length_le (by omega)
      refine ⟨fun k hk => ?_, ?_, ?_⟩
      · simpa using List.find?_eq_none.1 hunknown k hk
      · refine (List.perm_ext_iff_of_nodup (nodup_flatMap_positionsOf hsound.nodup_placed)
          List.nodup_range).2 fun i => ?_
        simp only [List.mem_flatMap, mem_positionsOf, List.mem_range]
        constructor
        · intro hyp
          obtain ⟨k, _, hi⟩ := hyp
          exact (List.getElem?_eq_some_iff.1 hi).1
        · intro hi
          refine ⟨kinds[i], ?_, List.getElem?_eq_getElem hi⟩
          exact hperm.mem_iff.2 (mem_distinctKinds.2 (List.getElem_mem hi))
      · refine List.pairwise_flatMap.2 ⟨fun k _ => ?_, ?_⟩
        · -- modules of one kind
          refine List.pairwise_of_forall_mem_list fun i hi j hj a b ha hb hafter => ?_
          obtain ⟨_, _, _, hne⟩ := hafter
          have hab : some b = some a := by
            rw [← ha, ← hb, mem_positionsOf.1 hi, mem_positionsOf.1 hj]
          exact hne (Option.some.inj hab)
        · refine hsound.pairwise_placed.imp ?_
          intro k l hkl i hi j hj a b ha hb
          rw [mem_positionsOf.1 hi] at ha
          rw [mem_positionsOf.1 hj] at hb
          rwa [← Option.some.inj ha, ← Option.some.inj hb]
    next => cases h

end Orchestra
