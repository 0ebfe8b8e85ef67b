import Orchestra.Proofs.LeastOrder
import Orchestra.Proofs.Orderability

/-!
# Nothing goes wrong in the sort

The sort looks up weights and counts down, and goes on as long as a kind is ready.  Here it is done with a
check at each of these points, and a note of everybody who becomes ready.

* `Sorting.Trial` — a state of the sort with that note;
* `Trial.close?`, `Trial.step?`, `Trial.start?`, `Trial.run?` — the sort with checks, which fails where a
  look-up, a count or the loop itself would;
* `Sorting.midway`, `Sound.openOf_midway` — what is counted in the middle of a step;
* `Trial.Keeps` — everybody who has become ready is placed or still ready;
* `Trial.run?_eq` — the sort with checks comes to its end, and to the same as the one without;
* `sort_is_safe` — all of it.
-/

namespace Orchestra.Sorting

/-- A state of the sort, and the kinds that have become ready so far, in order. -/
structure Trial where
  state : Sorting
  entered : List Kind
  deriving Repr, DecidableEq

namespace Trial

/-- Puts a kind among the ready ones; fails if it has no weight. -/
def enter? (table : List (Kind × Nat)) (s : Trial) (k : Kind) : Option Trial :=
  (weightIn table k).map fun w =>
    ⟨{ s.state with ready := insertReady (w, k) s.state.ready }, s.entered ++ [k]⟩

/-- Closes one need of a kind; fails if none is counted for it, or if it becomes ready and has no weight. -/
def close? (table : List (Kind × Nat)) (s : Trial) (k : Kind) : Option Trial :=
  match s.state.openOf k with
  | none => none
  | some n =>
    if n ≤ 0 then none
    else
      let needs := s.state.openNeeds.map fun e => if e.1 = k then (k, n - 1) else e
      let counted : Trial := ⟨{ s.state with openNeeds := needs }, s.entered⟩
      if n = 1 then counted.enter? table k else some counted

/-- Places the first ready kind and closes the needs that name it; fails if there is none. -/
def step? (types : TypeCatalogue) (listed : List Kind) (s : Trial) : Option Trial :=
  match s.state.ready with
  | [] => none
  | (_, k) :: rest =>
    (dependents types listed k).foldlM (close? (weightTable types listed))
      ⟨{ s.state with ready := rest, placed := s.state.placed ++ [k] }, s.entered⟩

/-- The state before anything is placed. -/
def start? (types : TypeCatalogue) (listed : List Kind) : Option Trial :=
  let needs := listed.map fun k => (k, ((listedNeeds types listed k).length : Int))
  let free := (needs.filter fun e => e.2 = 0).map Prod.fst
  free.foldlM (enter? (weightTable types listed)) ⟨⟨needs, [], []⟩, []⟩

/-- Takes steps until nobody is ready; fails if a step does, or if more steps are needed than given. -/
def run? (types : TypeCatalogue) (listed : List Kind) : Nat → Trial → Option Trial
  | 0, s => if s.state.ready = [] then some s else none
  | n + 1, s =>
    if s.state.ready = [] then some s else (s.step? types listed).bind (run? types listed n)

end Trial

/-! ### In the middle of a step -/

/-- The state in the middle of a step: `k` has been placed, with `rest` still ready, and the needs of `closed`
have been closed one after another. -/
def midway (table : List (Kind × Nat)) (s : Sorting) (k : Kind) (rest : List (Nat × Kind))
    (closed : List Kind) : Sorting :=
  closed.foldl (close table) { s with ready := rest, placed := s.placed ++ [k] }

variable {types : TypeCatalogue} {listed : List Kind} {s : Sorting} {k j : Kind} {w : Nat}
  {rest : List (Nat × Kind)} {closed todo : List Kind}

theorem step_eq_midway (hready : s.ready = (w, k) :: rest) :
    s.step types listed (weightTable types listed)
      = midway (weightTable types listed) s k rest (dependents types listed k) := by
  rw [Sorting.step, hready]
  rfl

theorem midway_snoc (table : List (Kind × Nat)) (s : Sorting) (k : Kind) (rest : List (Nat × Kind))
    (closed : List Kind) (j : Kind) :
    midway table s k rest (closed ++ [j]) = close table (midway table s k rest closed) j := by
  rw [midway, List.foldl_append]
  rfl

/-- Whoever is first among the ready kinds is listed and has no open need. -/
theorem Sound.of_ready (h : Sound types listed s) (hready : s.ready = (w, k) :: rest) :
    k ∈ listed ∧ k ∉ s.placed ∧ openCount types listed s.placed k = 0 := by
  obtain ⟨j, hlisted, hplaced, hopen, heq⟩ := (h.mem_ready (w, k)).1 (hready ▸ List.mem_cons_self)
  obtain rfl : k = j := congrArg Prod.snd heq
  exact ⟨hlisted, hplaced, hopen⟩

/-- **A need that is to be closed is counted.**  In the middle of a step the counter of a kind that has a need
to close is the number of needs that will still be open after the step, and of those still to be closed. -/
theorem Sound.openOf_midway (hl : listed.Nodup) (h : Sound types listed s)
    (hready : s.ready = (w, k) :: rest) (hsplit : dependents types listed k = closed ++ j :: todo) :
    (midway (weightTable types listed) s k rest closed).openOf j
      = some ((openCount types listed (s.placed ++ [k]) j + (todo.count j + 1) : Nat) : Int) := by
  have hlisted : ∀ i ∈ dependents types listed k, i ∈ listed := fun i hi => mem_listed_of_mem_dependents hi
  have hj : j ∈ listed := hlisted j (by rw [hsplit]; simp)
  have hclosed : ∀ i ∈ closed, i ∈ listed := fun i hi =>
    hlisted i (hsplit ▸ List.mem_append_left _ hi)
  obtain ⟨hcounts, -, -⟩ := counts_foldl_close hclosed (h.counts_taken (k := k) hready)
  have htotal : openCount types listed s.placed j
      = openCount types listed (s.placed ++ [k]) j + (closed.count j + (todo.count j + 1)) := by
    rw [openCount_snoc types (h.of_ready hready).2.1, ← count_dependents hl hj, hsplit, List.count_append,
      List.count_cons_self]
  rw [midway, openOf, hcounts.opens, lookup_map_pair, if_pos hj]
  congr 1
  omega

/-- **Whoever has a need to close has not been placed**, not even just now. -/
theorem Sound.not_mem_of_dependents (h : Sound types listed s) (hready : s.ready = (w, k) :: rest)
    (hj : j ∈ dependents types listed k) : j ∉ s.placed ++ [k] := by
  obtain ⟨-, hunplaced, hopen⟩ := h.of_ready hready
  have hneed : k ∈ listedNeeds types listed j := by
    simp only [dependents, List.mem_flatMap, List.mem_map, List.mem_filter, decide_eq_true_eq] at hj
    obtain ⟨i, -, d, ⟨hd, rfl⟩, rfl⟩ := hj
    exact hd
  intro hplaced
  rcases List.mem_append.1 hplaced with hbefore | hnow
  · -- whoever has been placed stands after what it needs
    obtain ⟨before, after, hsplit⟩ := List.append_of_mem hbefore
    exact hunplaced (hsplit ▸ List.mem_append_left _ (h.needs_before before j after hsplit k hneed))
  · obtain rfl := List.mem_singleton.1 hnow
    exact hunplaced (openCount_eq_zero_iff.1 hopen j hneed)

/-- Once nobody is ready, nothing changes any more. -/
theorem after_of_ready_nil {m n : Nat} (h : (after types listed m).ready = []) (hmn : m ≤ n) :
    after types listed n = after types listed m := by
  induction hmn with
  | refl => rfl
  | step _ ih => rw [after, ih, Sorting.step, h]

/-! ### The sort with checks -/

/-- Nobody is placed or ready twice. -/
theorem Sound.nodup_reached (h : Sound types listed s) : (s.placed ++ s.ready.map Prod.snd).Nodup := by
  refine List.nodup_append.2 ⟨h.nodup_placed, ?_, fun a ha b hb heq => ?_⟩
  · refine List.Nodup.map_on (fun e he e' he' heq => ?_) h.nodup_ready
    obtain ⟨j, -, -, -, rfl⟩ := (h.mem_ready e).1 he
    obtain ⟨j', -, -, -, rfl⟩ := (h.mem_ready e').1 he'
    exact congrArg (readyEntry _) heq
  · obtain ⟨e, he, rfl⟩ := List.mem_map.1 hb
    obtain ⟨j, -, hplaced, -, rfl⟩ := (h.mem_ready e).1 he
    rw [heq] at ha
    exact hplaced ha

namespace Trial

/-- The note is right: those have become ready who are placed or still ready. -/
def Keeps (t : Trial) : Prop := t.entered.Perm (t.state.placed ++ t.state.ready.map Prod.snd)

variable {table : List (Kind × Nat)} {t : Trial}

theorem Keeps.enter {e : Nat × Kind} {entered : List Kind}
    (h : Keeps ⟨s, entered⟩) : Keeps ⟨{ s with ready := insertReady e s.ready }, entered ++ [e.2]⟩ := by
  have hready : ((insertReady e s.ready).map Prod.snd).Perm (e.2 :: s.ready.map Prod.snd) :=
    (perm_insertBy e s.ready).map Prod.snd
  show (entered ++ [e.2]).Perm (s.placed ++ (insertReady e s.ready).map Prod.snd)
  calc (entered ++ [e.2]).Perm (e.2 :: entered) := List.perm_append_singleton _ _
    _ |>.Perm (e.2 :: (s.placed ++ s.ready.map Prod.snd)) := h.cons e.2
    _ |>.Perm (s.placed ++ e.2 :: s.ready.map Prod.snd) := List.perm_middle.symm
    _ |>.Perm (s.placed ++ (insertReady e s.ready).map Prod.snd) := hready.symm.append_left _

/-- A kind that has its weight becomes ready. -/
theorem enter?_eq {w : Nat} (hw : weightIn table k = some w) : t.enter? table k
    = some ⟨{ t.state with ready := insertReady (readyEntry table k) t.state.ready }, t.entered ++ [k]⟩ := by
  rw [enter?, hw, Option.map_some, readyEntry, hw, Option.getD_some]

/-- Where a need is counted and the kind has its weight, the need is closed. -/
theorem close?_eq {n w : Nat} (hopen : t.state.openOf k = some ((n + 1 : Nat) : Int))
    (hw : weightIn table k = some w) :
    t.close? table k = some ⟨close table t.state k, if n = 0 then t.entered ++ [k] else t.entered⟩ := by
  rw [close?, close, hopen]
  dsimp only
  rw [if_neg (by omega)]
  by_cases hlast : n = 0
  · subst hlast
    rw [if_pos (by omega), if_pos (by omega), enter?_eq hw, if_pos rfl]
    rfl
  · rw [if_neg (by omega), if_neg (by omega), if_neg hlast]

/-- Whoever becomes ready is noted, and nobody else. -/
theorem Keeps.close (table : List (Kind × Nat)) {n : Nat} (h : t.Keeps)
    (hopen : t.state.openOf k = some ((n + 1 : Nat) : Int)) :
    Keeps ⟨Sorting.close table t.state k, if n = 0 then t.entered ++ [k] else t.entered⟩ := by
  rw [Sorting.close, hopen]
  dsimp only
  by_cases hlast : n = 0
  · rw [if_pos (by omega), if_pos hlast]
    exact h.enter (e := readyEntry table k)
  · rw [if_neg (by omega), if_neg hlast]
    exact h

/-- Every listed kind has its weight in the table. -/
def Weighed (types : TypeCatalogue) (listed : List Kind) : Prop :=
  ∀ k ∈ listed, ∃ w, weightIn (weightTable types listed) k = some w

/-- The rest of a step, from the middle of it. -/
theorem foldlM_close? (hl : listed.Nodup) (hweighed : Weighed types listed) (h : Sound types listed s)
    (hready : s.ready = (w, k) :: rest) (hsplit : dependents types listed k = closed ++ todo)
    {entered : List Kind}
    (hkeeps : Keeps ⟨midway (weightTable types listed) s k rest closed, entered⟩) :
    ∃ entered', todo.foldlM (close? (weightTable types listed))
        ⟨midway (weightTable types listed) s k rest closed, entered⟩
      = some ⟨midway (weightTable types listed) s k rest (closed ++ todo), entered'⟩ ∧
      Keeps ⟨midway (weightTable types listed) s k rest (closed ++ todo), entered'⟩ := by
  induction todo generalizing closed entered with
  | nil => exact ⟨entered, by rw [List.append_nil]; rfl, by rwa [List.append_nil]⟩
  | cons j todo ih =>
    have hopen := h.openOf_midway hl hready hsplit
    obtain ⟨w', hw⟩ := hweighed j (mem_listed_of_mem_dependents (k := k) (by rw [hsplit]; simp))
    have hsplit' : dependents types listed k = (closed ++ [j]) ++ todo := by rw [hsplit]; simp
    have hclosed := hkeeps.close (weightTable types listed) hopen
    rw [← midway_snoc] at hclosed
    obtain ⟨entered', hrest, hkeeps'⟩ := ih hsplit' hclosed
    rw [List.append_assoc, List.singleton_append] at hrest hkeeps'
    refine ⟨entered', ?_, hkeeps'⟩
    rw [List.foldlM_cons, close?_eq hopen hw, ← midway_snoc]
    exact hrest

/-- **A step does not fail**, and comes to the same as without checks. -/
theorem step?_eq (hl : listed.Nodup) (hweighed : Weighed types listed) (h : Sound types listed t.state)
    (hkeeps : t.Keeps) (hready : t.state.ready ≠ []) :
    ∃ t', t.step? types listed = some t' ∧
      t'.state = t.state.step types listed (weightTable types listed) ∧ t'.Keeps := by
  obtain ⟨⟨w, k⟩, rest, hcons⟩ := List.exists_cons_of_ne_nil hready
  have htaken : Keeps ⟨midway (weightTable types listed) t.state k rest [], t.entered⟩ := by
    have hperm : t.entered.Perm (t.state.placed ++ k :: rest.map Prod.snd) := by
      rw [Keeps, hcons] at hkeeps
      exact hkeeps
    show t.entered.Perm ((t.state.placed ++ [k]) ++ rest.map Prod.snd)
    rwa [List.append_assoc]
  have hsplit : dependents types listed k = [] ++ dependents types listed k := rfl
  obtain ⟨entered', hfold, hkeeps'⟩ := foldlM_close? hl hweighed h hcons hsplit htaken
  rw [List.nil_append, ← step_eq_midway hcons] at hfold hkeeps'
  refine ⟨_, ?_, rfl, hkeeps'⟩
  rw [step?, hcons]
  exact hfold

/-- The kinds without needs become ready. -/
theorem foldlM_enter? (hweighed : ∀ k ∈ todo, ∃ w, weightIn table k = some w) (hkeeps : t.Keeps) :
    ∃ entered, todo.foldlM (enter? table) t = some ⟨{ t.state with
        ready := todo.foldl (fun r k => insertReady (readyEntry table k) r) t.state.ready }, entered⟩ ∧
      Keeps ⟨{ t.state with
        ready := todo.foldl (fun r k => insertReady (readyEntry table k) r) t.state.ready }, entered⟩ := by
  induction todo generalizing t with
  | nil => exact ⟨t.entered, rfl, hkeeps⟩
  | cons k todo ih =>
    obtain ⟨w, hw⟩ := hweighed k List.mem_cons_self
    obtain ⟨entered, hfold, hkeeps'⟩ := ih (fun i hi => hweighed i (List.mem_cons_of_mem _ hi))
      (hkeeps.enter (e := readyEntry table k))
    refine ⟨entered, ?_, hkeeps'⟩
    rw [List.foldlM_cons, enter?_eq hw]
    exact hfold

theorem start?_eq (hweighed : Weighed types listed) :
    ∃ t, start? types listed = some t ∧ t.state = start types listed ∧ t.Keeps := by
  have hfree : ∀ k ∈ ((listed.map fun k => (k, ((listedNeeds types listed k).length : Int))).filter
      fun e => e.2 = 0).map Prod.fst, ∃ w, weightIn (weightTable types listed) k = some w := by
    intro k hk
    obtain ⟨e, he, rfl⟩ := List.mem_map.1 hk
    obtain ⟨i, hi, rfl⟩ := List.mem_map.1 (List.mem_of_mem_filter he)
    exact hweighed i hi
  have hnobody : Keeps ⟨⟨listed.map fun k => (k, ((listedNeeds types listed k).length : Int)), [], []⟩, []⟩ :=
    List.Perm.refl _
  obtain ⟨entered, hfold, hkeeps⟩ := foldlM_enter? hfree hnobody
  exact ⟨_, hfold, rfl, hkeeps⟩

/-- **The sort with checks comes to its end**, and to the same as the one without. -/
theorem run?_eq (hl : listed.Nodup) (hweighed : Weighed types listed) {n fuel : Nat}
    (hfuel : n + fuel = listed.length) (ht : t.state = after types listed n) (hkeeps : t.Keeps) :
    ∃ t', t.run? types listed fuel = some t' ∧ t'.state = after types listed listed.length ∧ t'.Keeps := by
  induction fuel generalizing n t with
  | zero =>
    obtain rfl : n = listed.length := hfuel
    have hready : t.state.ready = [] := ht ▸ ready_after_length types hl
    exact ⟨t, if_pos hready, ht, hkeeps⟩
  | succ fuel ih =>
    by_cases hready : t.state.ready = []
    · refine ⟨t, if_pos hready, ?_, hkeeps⟩
      have hdone : (after types listed n).ready = [] := ht ▸ hready
      rw [ht, after_of_ready_nil hdone (Nat.le.intro hfuel)]
    · obtain ⟨t', hstep, hstate, hkeeps'⟩ :=
        step?_eq hl hweighed (ht ▸ sound_after types hl n) hkeeps hready
      rw [ht, ← after] at hstate
      obtain ⟨t'', hrun, hend⟩ := ih (by omega) hstate hkeeps'
      refine ⟨t'', ?_, hend⟩
      rw [run?, if_neg hready, hstep]
      exact hrun

end Trial

end Orchestra.Sorting

namespace Orchestra

open Sorting

/-! ### The main result -/

variable {types : TypeCatalogue} {kinds : List Kind}

/-- **Nothing goes wrong in the sort** of known kinds, however often a need is named, whoever needs itself,
and though kinds need each other in a circle. -/
theorem sort_is_safe (hknows : types.Knows kinds) :
    -- Every kind has its weight in the table.
    (∀ k ∈ kinds, ∃ i, types.find? k = some i ∧
      weightIn (weightTable types (distinctKinds kinds)) k = some i.weight) ∧
    -- With all checks the loop ends within as many steps as there are distinct kinds, in the state in which the
    -- sort ends.  Nobody has become ready twice, and those who have are the ones that have been placed.
    (∃ t, (Trial.start? types (distinctKinds kinds)).bind
        (Trial.run? types (distinctKinds kinds) (distinctKinds kinds).length) = some t ∧
      t.state = after types (distinctKinds kinds) (distinctKinds kinds).length ∧ t.state.ready = [] ∧
      t.entered.Nodup ∧ t.entered.Perm t.state.placed) ∧
    ∀ n s, s = after types (distinctKinds kinds) n →
      -- Before every step the counter of each kind is the number of its entries that name a listed kind which has
      -- not been placed, and nobody is placed or ready twice.
      (∀ k ∈ kinds, s.openOf k = some (openCount types (distinctKinds kinds) s.placed k : Int)) ∧
      (s.placed ++ s.ready.map Prod.snd).Nodup ∧
      -- In the middle of every step each need that is to be closed belongs to a kind which has not been placed, and
      -- is counted.
      ∀ w k rest, s.ready = (w, k) :: rest → ∀ closed j todo,
        dependents types (distinctKinds kinds) k = closed ++ j :: todo → j ∉ s.placed ++ [k] ∧
        (midway (weightTable types (distinctKinds kinds)) s k rest closed).openOf j
          = some ((openCount types (distinctKinds kinds) (s.placed ++ [k]) j
              + (todo.count j + 1) : Nat) : Int) := by
  have hl := nodup_distinctKinds kinds
  have hweights : ∀ k ∈ kinds, ∃ i, types.find? k = some i ∧
      weightIn (weightTable types (distinctKinds kinds)) k = some i.weight := by
    intro k hk
    obtain ⟨i, hi⟩ := Option.isSome_iff_exists.1 (hknows k hk)
    refine ⟨i, hi, ?_⟩
    rw [weightIn_weightTable types (mem_distinctKinds.2 hk), hi, Option.map_some]
  have hweighed : Trial.Weighed types (distinctKinds kinds) := fun k hk => by
    obtain ⟨i, -, hw⟩ := hweights k (mem_distinctKinds.1 hk)
    exact ⟨i.weight, hw⟩
  refine ⟨hweights, ?_, ?_⟩
  · obtain ⟨t, hstart, hstate, hkeeps⟩ := Trial.start?_eq hweighed
    obtain ⟨t', hrun, hstate', hkeeps'⟩ :=
      Trial.run?_eq hl hweighed (Nat.zero_add _) hstate hkeeps
    have hready : t'.state.ready = [] := hstate' ▸ ready_after_length types hl
    rw [Trial.Keeps, hready, List.map_nil, List.append_nil] at hkeeps'
    have hsound := sound_after types hl (distinctKinds kinds).length
    refine ⟨t', by rw [hstart, Option.bind_some, hrun], hstate', hready, ?_, hkeeps'⟩
    exact hkeeps'.nodup_iff.2 (hstate' ▸ hsound.nodup_placed)
  · rintro n s rfl
    have hsound := sound_after types hl n
    refine ⟨fun k hk => ?_, hsound.nodup_reached, fun w k rest hready closed j todo hsplit => ⟨?_, ?_⟩⟩
    · rw [openOf, hsound.opens, lookup_map_pair, if_pos (mem_distinctKinds.2 hk)]
    · exact hsound.not_mem_of_dependents hready (by rw [hsplit]; simp)
    · exact hsound.openOf_midway hl hready hsplit

/-- A kind that is needed twice by one that needs itself too, and three times by another one. -/
def insistentTypes : TypeCatalogue :=
  ⟨[⟨⟨"a"⟩, "A", 3, false, []⟩, ⟨⟨"b"⟩, "B", 2, false, [⟨"a"⟩, ⟨"b"⟩, ⟨"a"⟩]⟩,
    ⟨⟨"c"⟩, "C", 1, false, [⟨"a"⟩, ⟨"a"⟩, ⟨"absent"⟩, ⟨"a"⟩]⟩]⟩

/-- Five needs are closed when `a` is placed; after the first of them two needs of `c` are still counted.  The
kind that needs itself never becomes ready. -/
theorem sort_is_safe_insistent :
    (midway (weightTable insistentTypes [⟨"c"⟩, ⟨"b"⟩, ⟨"a"⟩]) (start insistentTypes [⟨"c"⟩, ⟨"b"⟩, ⟨"a"⟩])
      ⟨"a"⟩ [] [⟨"c"⟩]).openOf ⟨"c"⟩ = some 2 ∧
    ∃ t, (Trial.start? insistentTypes [⟨"c"⟩, ⟨"b"⟩, ⟨"a"⟩]).bind
        (Trial.run? insistentTypes [⟨"c"⟩, ⟨"b"⟩, ⟨"a"⟩] 3) = some t ∧
      t.entered.Perm t.state.placed ∧ t.state.placed = [⟨"a"⟩, ⟨"c"⟩] := by
  have hknows : insistentTypes.Knows [⟨"c"⟩, ⟨"b"⟩, ⟨"a"⟩, ⟨"c"⟩] := by
    unfold TypeCatalogue.Knows
    decide
  obtain ⟨-, ⟨t, hrun, hstate, -, -, hperm⟩, hsteps⟩ := sort_is_safe hknows
  obtain ⟨-, -, hmiddle⟩ := hsteps 0 _ rfl
  refine ⟨(hmiddle 3 ⟨"a"⟩ [] (by decide) [⟨"c"⟩] ⟨"c"⟩ [⟨"c"⟩, ⟨"b"⟩, ⟨"b"⟩] (by decide)).2, t, hrun, hperm, ?_⟩
  rw [hstate]
  decide

end Orchestra
