import Mathlib.Data.List.Induction
import Mathlib.Data.List.Nodup
import Orchestra.ModuleType

/-!
# Kinds and weights are unique

A catalogue of types has one entry per kind and one per weight, whatever was asked of it, and it does
not matter in which order its entries were added, nor in which order its table goes through them.

* `TypeInfo.Apart` — two types that may stand in one catalogue;
* `TypeCatalogue.Follows` — what a catalogue may be after requests to add types, refused ones among
  them, when its table may be put in another order at any time;
* `TypeCatalogue.Sound` — the entries are apart from each other; `TypeCatalogue.Follows.sound`;
* `TypeCatalogue.add_kind_iff`, `TypeCatalogue.Sound.add_weight_iff`, `TypeCatalogue.add_ok_iff` — what
  is added, and every reason why something is not;
* `TypeCatalogue.Follows.perm` — which entries there are after types that are apart from each other;
* `types_told_apart` — all of it for the catalogues that a process starts from.
-/

namespace Orchestra

/-! ### Items told apart by a key -/

section Keyed

variable {α κ : Type} [DecidableEq κ] {key : α → κ} {l l' : List α}

theorem find?_key_iff (hd : (l.map key).Nodup) {k : κ} {a : α} :
    l.find? (fun x => key x = k) = some a ↔ a ∈ l ∧ key a = k := by
  constructor
  · intro h
    exact ⟨List.mem_of_find?_eq_some h, by simpa using List.find?_some h⟩
  · rintro ⟨ha, rfl⟩
    obtain ⟨b, hb⟩ : ∃ b, l.find? (fun x => key x = key a) = some b := by
      rw [← Option.isSome_iff_exists, List.find?_isSome]
      exact ⟨a, ha, by simp⟩
    have hkey : key b = key a := by simpa using List.find?_some hb
    rw [hb, List.inj_on_of_nodup_map hd (List.mem_of_find?_eq_some hb) ha hkey]

theorem find?_key_perm (hd : (l.map key).Nodup) (hp : l.Perm l') (k : κ) :
    l.find? (fun x => key x = k) = l'.find? (fun x => key x = k) := by
  have hd' : (l'.map key).Nodup := (hp.map key).nodup_iff.1 hd
  ext a
  rw [find?_key_iff hd, find?_key_iff hd', hp.mem_iff]

end Keyed

/-- Two types may stand in one catalogue. -/
def TypeInfo.Apart (i j : TypeInfo) : Prop := i.kind ≠ j.kind ∧ i.weight ≠ j.weight

instance (i j : TypeInfo) : Decidable (i.Apart j) := inferInstanceAs (Decidable (_ ∧ _))

theorem TypeInfo.Apart.symm {i j : TypeInfo} (h : i.Apart j) : j.Apart i := ⟨h.1.symm, h.2.symm⟩

namespace TypeCatalogue

variable {start c c' d : TypeCatalogue} {i j o : TypeInfo} {k : Kind} {infos infos' : List TypeInfo}

/-! ### Requests -/

/-- The catalogue after a request to add a type: as it was, if the request is refused. -/
def tried (c : TypeCatalogue) (i : TypeInfo) : TypeCatalogue := (c.add i).toOption.getD c

/-- `c` is what the catalogue may be after one request after another, when its table may come to be in
another order at any time. -/
inductive Follows (start : TypeCatalogue) : List TypeInfo → TypeCatalogue → Prop where
  | start : Follows start [] start
  | tried {infos : List TypeInfo} {c : TypeCatalogue} (h : Follows start infos c) (i : TypeInfo) :
    Follows start (infos ++ [i]) (c.tried i)
  | reordered {infos : List TypeInfo} {c d : TypeCatalogue} (h : Follows start infos c)
    (hp : d.entries.Perm c.entries) : Follows start infos d

/-- The requests one after another, when the table stays in its order. -/
theorem follows_foldl (start : TypeCatalogue) (infos : List TypeInfo) :
    start.Follows infos (infos.foldl TypeCatalogue.tried start) := by
  induction infos using List.reverseRecOn with
  | nil => exact .start
  | append_singleton infos i ih =>
    rw [List.foldl_append]
    exact ih.tried i

/-- There is room for a type: nothing in the catalogue has its kind or its weight. -/
def Admits (c : TypeCatalogue) (i : TypeInfo) : Prop := ∀ o ∈ c.entries, o.Apart i

instance (c : TypeCatalogue) (i : TypeInfo) : Decidable (c.Admits i) :=
  inferInstanceAs (Decidable (∀ o ∈ c.entries, o.Apart i))

theorem contains_eq_false_iff : c.contains k = false ↔ ∀ o ∈ c.entries, o.kind ≠ k := by
  rw [← Bool.not_eq_true, contains_iff]
  simp

theorem ownerOf?_eq_none_iff {w : Nat} : c.ownerOf? w = none ↔ ∀ o ∈ c.entries, o.weight ≠ w := by
  simp [ownerOf?]

theorem admits_iff : c.Admits i ↔ c.contains i.kind = false ∧ ∀ o ∈ c.entries, o.weight ≠ i.weight := by
  rw [contains_eq_false_iff]
  exact ⟨fun h => ⟨fun o ho => (h o ho).1, fun o ho => (h o ho).2⟩, fun h o ho => ⟨h.1 o ho, h.2 o ho⟩⟩

/-- What a request comes to: a taken kind is reported first, then a taken weight. -/
theorem add_cases (c : TypeCatalogue) (i : TypeInfo) :
    (c.contains i.kind = true ∧ c.add i = .error (.duplicateKind i.kind.name)) ∨
      (∃ o, c.contains i.kind = false ∧ c.ownerOf? i.weight = some o ∧
        c.add i = .error (.duplicateWeight i.kind.name o.kind.name i.weight)) ∨
      (c.Admits i ∧ c.add i = .ok ⟨c.entries ++ [i]⟩) := by
  cases hk : c.contains i.kind with
  | true =>
    left
    exact ⟨rfl, by rw [add, if_pos hk]⟩
  | false =>
    right
    have hk' : ¬ c.contains i.kind = true := by simp [hk]
    cases ho : c.ownerOf? i.weight with
    | some o =>
      left
      exact ⟨o, rfl, rfl, by rw [add, if_neg hk', ho]⟩
    | none =>
      right
      exact ⟨admits_iff.2 ⟨hk, ownerOf?_eq_none_iff.1 ho⟩, by rw [add, if_neg hk', ho]⟩

theorem Admits.add (h : c.Admits i) : c.add i = .ok ⟨c.entries ++ [i]⟩ := by
  obtain ⟨hk, hw⟩ := admits_iff.1 h
  rcases c.add_cases i with ⟨hk', -⟩ | ⟨o, -, ho, -⟩ | ⟨-, hadd⟩
  · simp [hk] at hk'
  · rw [ownerOf?_eq_none_iff.2 hw] at ho
    cases ho
  · exact hadd

theorem tried_of_ok (h : c.add i = .ok c') : c.tried i = c' := by
  simp [tried, h, Except.toOption]

theorem tried_of_error {f : Refusal} (h : c.add i = .error f) : c.tried i = c := by
  simp [tried, h, Except.toOption]

theorem add_ok_iff : (∃ c', c.add i = .ok c') ↔ c.Admits i := by
  refine ⟨?_, fun h => ⟨_, h.add⟩⟩
  rintro ⟨c', h⟩
  rcases c.add_cases i with ⟨-, h'⟩ | ⟨o, -, -, h'⟩ | ⟨hroom, -⟩
  · simp [h'] at h
  · simp [h'] at h
  · exact hroom

theorem entries_of_add_ok (h : c.add i = .ok c') : c'.entries = c.entries ++ [i] := by
  rw [(add_ok_iff.1 ⟨c', h⟩).add] at h
  cases h
  rfl

theorem entries_tried (c : TypeCatalogue) (i : TypeInfo) :
    (c.tried i).entries = c.entries ++ [i].filter fun i => c.Admits i := by
  by_cases h : c.Admits i
  · rw [tried_of_ok h.add]
    simp [h]
  · rcases c.add_cases i with ⟨-, hadd⟩ | ⟨o, -, -, hadd⟩ | ⟨hroom, -⟩
    · rw [tried_of_error hadd]
      simp [h]
    · rw [tried_of_error hadd]
      simp [h]
    · exact absurd hroom h

theorem add_kind_iff : c.add i = .error (.duplicateKind i.kind.name) ↔ c.contains i.kind = true := by
  rcases c.add_cases i with ⟨hk, h⟩ | ⟨o, hk, -, h⟩ | ⟨hroom, h⟩
  · simp [h, hk]
  · simp [h, hk]
  · simp [h, (admits_iff.1 hroom).1]

/-! ### The invariant -/

/-- No two entries have a kind or a weight in common. -/
structure Sound (c : TypeCatalogue) : Prop where
  kinds : (c.entries.map TypeInfo.kind).Nodup
  weights : (c.entries.map TypeInfo.weight).Nodup

theorem sound_empty : Sound empty := ⟨by simp [empty], by simp [empty]⟩

theorem sound_core : Sound core := ⟨by decide, by decide⟩

theorem Sound.apart (h : c.Sound) : c.entries.Pairwise TypeInfo.Apart :=
  (List.pairwise_map.1 h.kinds).and (List.pairwise_map.1 h.weights)

theorem sound_iff_apart : c.Sound ↔ c.entries.Pairwise TypeInfo.Apart := by
  refine ⟨Sound.apart, fun h => ⟨?_, ?_⟩⟩
  · exact List.pairwise_map.2 (h.imp And.left)
  · exact List.pairwise_map.2 (h.imp And.right)

theorem Sound.tried (h : c.Sound) (i : TypeInfo) : (c.tried i).Sound := by
  rw [sound_iff_apart, entries_tried, List.pairwise_append]
  refine ⟨h.apart, (List.pairwise_singleton _ i).sublist List.filter_sublist, ?_⟩
  intro a ha b hb
  have hroom : c.Admits b := of_decide_eq_true (List.mem_filter.1 hb).2
  exact hroom a ha

theorem Sound.perm (h : c.Sound) (hp : d.entries.Perm c.entries) : d.Sound :=
  ⟨(hp.map _).nodup_iff.2 h.kinds, (hp.map _).nodup_iff.2 h.weights⟩

theorem Follows.sound (hs : start.Sound) (h : start.Follows infos c) : c.Sound := by
  induction h with
  | start => exact hs
  | tried h i ih => exact ih.tried i
  | reordered h hp ih => exact ih.perm hp

/-! ### What a sound catalogue shows -/

theorem Sound.find?_iff (h : c.Sound) : c.find? k = some i ↔ i ∈ c.entries ∧ i.kind = k :=
  find?_key_iff h.kinds

theorem Sound.ownerOf?_iff (h : c.Sound) {w : Nat} :
    c.ownerOf? w = some o ↔ o ∈ c.entries ∧ o.weight = w :=
  find?_key_iff h.weights

/-- A taken weight is reported, with the kind of the one entry that has it. -/
theorem Sound.add_weight_iff (h : c.Sound) {name : String} :
    c.add i = .error (.duplicateWeight i.kind.name name i.weight) ↔
      c.contains i.kind = false ∧ ∃ o ∈ c.entries, o.weight = i.weight ∧ o.kind.name = name ∧
        ∀ o' ∈ c.entries, o'.weight = i.weight → o' = o := by
  have hone : ∀ o ∈ c.entries, o.weight = i.weight → ∀ o' ∈ c.entries, o'.weight = i.weight → o' = o :=
    fun o ho hw o' ho' hw' => List.inj_on_of_nodup_map h.weights ho' ho (hw'.trans hw.symm)
  rcases c.add_cases i with ⟨hk, hadd⟩ | ⟨o, hk, ho, hadd⟩ | ⟨hroom, hadd⟩
  · simp [hadd, hk]
  · obtain ⟨hmem, hw⟩ := h.ownerOf?_iff.1 ho
    simp only [hadd, hk, Except.error.injEq, Refusal.duplicateWeight.injEq, true_and, and_true]
    constructor
    · intro hname
      exact ⟨o, hmem, hw, hname, hone o hmem hw⟩
    · rintro ⟨o', hmem', hw', hname, -⟩
      rw [hone o' hmem' hw' o hmem hw]
      exact hname
  · simp only [hadd, reduceCtorEq, false_iff]
    rintro ⟨-, o, ho, hw, -⟩
    exact (hroom o ho).2 hw

theorem find?_of_add_ok (h : c.add i = .ok c') (k : Kind) :
    c'.find? k = if k = i.kind then some i else c.find? k := by
  have hroom : c.Admits i := add_ok_iff.1 ⟨c', h⟩
  rw [find?, entries_of_add_ok h, List.find?_append]
  by_cases hk : k = i.kind
  · have hnone : c.entries.find? (fun j => j.kind = k) = none := by
      simpa [hk] using fun o ho => (hroom o ho).1
    rw [hnone, Option.none_or, if_pos hk]
    simp [hk]
  · have hk' : ¬ i.kind = k := fun heq => hk heq.symm
    rw [if_neg hk, find?]
    simp [hk']

theorem perm_byWeight (c : TypeCatalogue) : c.byWeight.Perm c.entries := perm_sortBy _

theorem Sound.byWeight_increasing (h : c.Sound) : c.byWeight.Pairwise fun a b => a.weight < b.weight := by
  have hordered : c.byWeight.Pairwise fun a b => decide (a.weight ≤ b.weight) = true := by
    refine pairwise_sortBy (fun a b => ?_) (fun x y z => ?_) _
    · simpa using Nat.le_total a.weight b.weight
    · simpa using Nat.le_trans
  have hdistinct : c.byWeight.Pairwise fun a b => a.weight ≠ b.weight :=
    List.pairwise_map.1 (((c.perm_byWeight.map _).nodup_iff).2 h.weights)
  refine (hordered.and hdistinct).imp fun {a b} hab => ?_
  exact Nat.lt_of_le_of_ne (of_decide_eq_true hab.1) hab.2

/-! ### The order does not show -/

theorem Sound.find?_perm (h : c.Sound) (hp : d.entries.Perm c.entries) (k : Kind) :
    d.find? k = c.find? k :=
  find?_key_perm (h.perm hp).kinds hp k

theorem Sound.byWeight_perm (h : c.Sound) (hp : d.entries.Perm c.entries) : d.byWeight = c.byWeight := by
  have hsame : d.byWeight.Perm c.byWeight :=
    (d.perm_byWeight.trans hp).trans c.perm_byWeight.symm
  refine hsame.eq_of_pairwise ?_ (h.perm hp).byWeight_increasing h.byWeight_increasing
  intro a b _ _ hab hba
  omega

/-- After types that are apart from each other, the entries are those of the start and, of the types,
those that the start has room for. -/
theorem Follows.perm (h : start.Follows infos c) (hapart : infos.Pairwise TypeInfo.Apart) :
    c.entries.Perm (start.entries ++ infos.filter fun i => start.Admits i) := by
  induction h with
  | start => simp
  | @tried infos c h i ih =>
    obtain ⟨hinfos, -, hi⟩ := List.pairwise_append.1 hapart
    have hc := ih hinfos
    -- The types asked for before are apart from this one, so room for it is up to the start.
    have hroom : c.Admits i ↔ start.Admits i := by
      constructor
      · intro hadm o ho
        exact hadm o (hc.mem_iff.2 (List.mem_append_left _ ho))
      · intro hadm o ho
        rcases List.mem_append.1 (hc.mem_iff.1 ho) with ho | ho
        · exact hadm o ho
        · exact hi o (List.mem_of_mem_filter ho) i (List.mem_singleton_self i)
    rw [entries_tried, List.filter_append, ← List.append_assoc]
    have hlast : [i].filter (fun i => c.Admits i) = [i].filter (fun i => start.Admits i) := by
      rw [List.filter_singleton, List.filter_singleton, decide_eq_decide.2 hroom]
    rw [hlast]
    exact hc.append_right _
  | reordered h hp ih => exact hp.trans (ih hapart)

end TypeCatalogue

/-! ### One entry per kind and per weight -/

/-- In a catalogue that has come from a fresh one by any requests, no two entries have a kind or a weight
in common, and each is found under its kind. A type is refused for its kind exactly if there is one of
that kind, else for its weight exactly if there is one of that weight, which is the one reported; a
refused request changes nothing, an accepted one what is found under its kind only. The entries are
listed once each by rising weights. Requests for types that are apart from each other come to the same,
whatever their order and whatever the orders of the tables. -/
theorem types_told_apart {start c : TypeCatalogue} {infos : List TypeInfo}
    (hstart : start = .empty ∨ start = .core) (hc : start.Follows infos c) :
    (c.entries.Pairwise fun i j => i.kind ≠ j.kind ∧ i.weight ≠ j.weight) ∧
    (∀ k i, c.find? k = some i ↔ i ∈ c.entries ∧ i.kind = k) ∧
    (∀ i, c.add i = .error (.duplicateKind i.kind.name) ↔ c.contains i.kind = true) ∧
    (∀ i name, c.add i = .error (.duplicateWeight i.kind.name name i.weight) ↔
      c.contains i.kind = false ∧ ∃ o ∈ c.entries, o.weight = i.weight ∧ o.kind.name = name ∧
        ∀ o' ∈ c.entries, o'.weight = i.weight → o' = o) ∧
    (∀ i, (∃ c', c.add i = .ok c') ↔
      c.contains i.kind = false ∧ ∀ o ∈ c.entries, o.weight ≠ i.weight) ∧
    (∀ i f, c.add i = .error f → c.tried i = c) ∧
    (∀ i c', c.add i = .ok c' → c.tried i = c' ∧ c'.byWeight.Perm (i :: c.byWeight) ∧
      ∀ k, c'.find? k = if k = i.kind then some i else c.find? k) ∧
    (c.byWeight.Perm c.entries ∧ c.byWeight.Pairwise fun i j => i.weight < j.weight) ∧
    (∀ infos' d, infos.Pairwise (fun i j => i.kind ≠ j.kind ∧ i.weight ≠ j.weight) →
      infos'.Perm infos → start.Follows infos' d →
      d.byWeight = c.byWeight ∧ ∀ k, d.find? k = c.find? k) := by
  have hstarts : start.Sound := by
    rcases hstart with rfl | rfl
    · exact TypeCatalogue.sound_empty
    · exact TypeCatalogue.sound_core
  have hsound : c.Sound := hc.sound hstarts
  refine ⟨hsound.apart, fun k i => hsound.find?_iff, fun i => TypeCatalogue.add_kind_iff,
    fun i name => hsound.add_weight_iff, ?_, fun i f => TypeCatalogue.tried_of_error, ?_,
    ⟨c.perm_byWeight, hsound.byWeight_increasing⟩, ?_⟩
  · intro i
    rw [TypeCatalogue.add_ok_iff, TypeCatalogue.admits_iff]
  · intro i c' hadd
    refine ⟨TypeCatalogue.tried_of_ok hadd, ?_, TypeCatalogue.find?_of_add_ok hadd⟩
    calc c'.byWeight.Perm c'.entries := c'.perm_byWeight
      _ = c.entries ++ [i] := TypeCatalogue.entries_of_add_ok hadd
      List.Perm _ (i :: c.entries) := List.perm_append_singleton i c.entries
      List.Perm _ (i :: c.byWeight) := c.perm_byWeight.symm.cons i
  · intro infos' d hapart hinfos hd
    have hapart' : infos'.Pairwise TypeInfo.Apart :=
      (hinfos.pairwise_iff fun {i j} h => TypeInfo.Apart.symm h).2 hapart
    have hentries : d.entries.Perm c.entries :=
      ((hd.perm hapart').trans ((hinfos.filter _).append_left _)).trans (hc.perm hapart).symm
    exact ⟨hsound.byWeight_perm hentries, hsound.find?_perm hentries⟩

/-- Two types of an application, one that starts last and one that starts first. -/
def customTypes : List TypeInfo :=
  [.optional ⟨"metrics"⟩ "Metrics" 10, .optional ⟨"cache"⟩ "Cache" 0]

/-- The two types are listed the same when they are added the other way round. -/
theorem types_told_apart_custom :
    (customTypes.foldl TypeCatalogue.tried .core).find? ⟨"cache"⟩ =
      some (.optional ⟨"cache"⟩ "Cache" 0) ∧
    (customTypes.reverse.foldl TypeCatalogue.tried .core).byWeight =
      (customTypes.foldl TypeCatalogue.tried .core).byWeight := by
  have hc := TypeCatalogue.follows_foldl .core customTypes
  have hd := TypeCatalogue.follows_foldl .core customTypes.reverse
  obtain ⟨-, hfind, -, -, -, -, -, -, horder⟩ := types_told_apart (.inr rfl) hc
  exact ⟨(hfind _ _).2 (by decide), (horder _ _ (by decide) (.swap _ _ _) hd).1⟩

end Orchestra
