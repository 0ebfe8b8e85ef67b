import Mathlib.Data.String.Basic
import Orchestra.Event.Catalogue

/-!
# Keys are bound once

Whatever is asked of a catalogue of events, a key that is bound stays bound to the constructor it was
bound to first, and what is built under a key has that key.

* `EventCatalogue.after` — the catalogue after any requests to bind keys, refused ones among them;
* `EventCatalogue.Sound` — every bound key is defined and is bound once; every request keeps it so;
* `EventCatalogue.find?_after` — a key goes with the first constructor that was asked for it;
* `EventCatalogue.eventFor_ok_iff`, `EventCatalogue.eventFor_error_iff` — when an event is built, and
  every reason why none is;
* `events_bound_once` — all of it for the catalogues that a process starts from.
-/

namespace Orchestra

/-- Why an event is refused that was built under a key that is not its own. -/
def DispatchFailure.keyedOtherwise (k : EventKey) (event : Event) : DispatchFailure :=
  .construction k s!"constructor produced an event keyed `{event.key.text}`"

namespace EventCatalogue

variable {c c' : EventCatalogue} {k k' : EventKey} {make : Constructor} {as : Arguments}

/-! ### Requests -/

/-- The catalogue after a request to bind a key: as it was, if the request is refused. -/
def tried (c : EventCatalogue) (request : EventKey × Constructor) : EventCatalogue :=
  (c.add request.1 request.2).toOption.getD c

/-- The catalogue after one request after another. -/
def after (c : EventCatalogue) (requests : List (EventKey × Constructor)) : EventCatalogue :=
  requests.foldl tried c

@[simp] theorem after_nil (c : EventCatalogue) : c.after [] = c := rfl

@[simp] theorem after_cons (c : EventCatalogue) (request : EventKey × Constructor)
    (rest : List (EventKey × Constructor)) : c.after (request :: rest) = (c.tried request).after rest :=
  rfl

theorem after_append (c : EventCatalogue) (requests later : List (EventKey × Constructor)) :
    c.after (requests ++ later) = (c.after requests).after later := by
  simp [after, List.foldl_append]

theorem after_snoc (c : EventCatalogue) (requests : List (EventKey × Constructor))
    (request : EventKey × Constructor) :
    c.after (requests ++ [request]) = (c.after requests).tried request := by
  rw [after_append, after_cons, after_nil]

theorem tried_of_ok (h : c.add k make = .ok c') : c.tried (k, make) = c' := by
  simp [tried, h, Except.toOption]

theorem tried_of_error {f : Refusal} (h : c.add k make = .error f) : c.tried (k, make) = c := by
  simp [tried, h, Except.toOption]

/-- What a request comes to: it is refused for one of two reasons, or the key is bound. -/
theorem add_cases (c : EventCatalogue) (k : EventKey) (make : Constructor) :
    (k = .undefined ∧ c.add k make = .error .undefinedKey) ∨
      (k ≠ .undefined ∧ c.contains k = true ∧ c.add k make = .error (.duplicateKey k)) ∨
      (k ≠ .undefined ∧ c.contains k = false ∧ c.add k make = .ok ⟨c.entries ++ [(k, make)]⟩) := by
  by_cases hk : k = .undefined
  · left
    refine ⟨hk, ?_⟩
    rw [add, if_pos (EventKey.namesNothing_iff.2 hk)]
  · right
    have hn : ¬ k.namesNothing := fun h => hk (EventKey.namesNothing_iff.1 h)
    cases hc : c.contains k with
    | true =>
      left
      refine ⟨hk, rfl, ?_⟩
      rw [add, if_neg hn, if_pos hc]
    | false =>
      right
      refine ⟨hk, rfl, ?_⟩
      rw [add, if_neg hn, if_neg (by simp [hc])]

theorem add_ok_iff :
    (∃ c', c.add k make = .ok c') ↔ k ≠ .undefined ∧ c.contains k = false := by
  rcases c.add_cases k make with ⟨hk, h⟩ | ⟨-, hc, h⟩ | ⟨hk, hc, h⟩
  · subst hk
    simp [h]
  · simp [h, hc]
  · simp [h, hk, hc]

theorem entries_of_add_ok (h : c.add k make = .ok c') : c'.entries = c.entries ++ [(k, make)] := by
  rcases c.add_cases k make with ⟨-, h'⟩ | ⟨-, -, h'⟩ | ⟨-, -, h'⟩
  · simp [h'] at h
  · simp [h'] at h
  · rw [h'] at h
    cases h
    rfl

theorem size_of_add_ok (h : c.add k make = .ok c') : c'.size = c.size + 1 := by
  rw [size, entries_of_add_ok h, List.length_append, List.length_singleton, size]

theorem contains_iff : c.contains k = true ↔ k ∈ c.entries.map Prod.fst := by
  simp only [contains, find?, List.lookup_isSome_iff, beq_iff_eq, List.mem_map]
  exact exists_congr fun p => and_congr_right fun _ => eq_comm

/-! ### The invariant -/

/-- Every bound key is defined, and is bound once. -/
structure Sound (c : EventCatalogue) : Prop where
  defined : .undefined ∉ c.entries.map Prod.fst
  distinct : (c.entries.map Prod.fst).Nodup

theorem sound_empty : Sound empty := ⟨by simp [empty], by simp [empty]⟩

theorem sound_lifecycle : Sound lifecycle := ⟨by decide, by decide⟩

theorem Sound.tried (h : c.Sound) (request : EventKey × Constructor) : (c.tried request).Sound := by
  obtain ⟨k, make⟩ := request
  rcases c.add_cases k make with ⟨-, hadd⟩ | ⟨-, -, hadd⟩ | ⟨hk, hc, hadd⟩
  · rwa [tried_of_error hadd]
  · rwa [tried_of_error hadd]
  · rw [tried_of_ok hadd]
    have hfresh : k ∉ c.entries.map Prod.fst := by
      rw [← contains_iff, hc]
      exact Bool.false_ne_true
    refine ⟨?_, ?_⟩
    · show .undefined ∉ (c.entries ++ [(k, make)]).map Prod.fst
      simp only [List.map_append, List.map_cons, List.map_nil, List.mem_append, List.mem_singleton]
      exact fun hmem => hmem.elim h.defined fun heq => hk heq.symm
    · show ((c.entries ++ [(k, make)]).map Prod.fst).Nodup
      rw [List.map_append, List.nodup_append]
      refine ⟨h.distinct, by simp, ?_⟩
      intro a ha b hb heq
      rw [List.map_cons, List.map_nil, List.mem_singleton] at hb
      rw [heq, hb] at ha
      exact hfresh ha

theorem Sound.after (h : c.Sound) (requests : List (EventKey × Constructor)) :
    (c.after requests).Sound := by
  induction requests generalizing c with
  | nil => exact h
  | cons request rest ih => exact ih (h.tried request)

theorem Sound.contains_undefined (h : c.Sound) : c.contains .undefined = false := by
  rw [Bool.eq_false_iff]
  intro hc
  exact h.defined (contains_iff.1 hc)

/-! ### What a key is bound to -/

theorem find?_tried (request : EventKey × Constructor) (hk : k ≠ .undefined) :
    (c.tried request).find? k = (c.find? k).or ([request].lookup k) := by
  obtain ⟨k', make⟩ := request
  rcases c.add_cases k' make with ⟨hk', hadd⟩ | ⟨-, hc, hadd⟩ | ⟨-, -, hadd⟩
  · rw [tried_of_error hadd, hk']
    simp [List.lookup_cons, beq_eq_false_iff_ne.2 hk]
  · rw [tried_of_error hadd]
    by_cases hkk : k = k'
    · obtain ⟨m, hm⟩ := Option.isSome_iff_exists.1 (hkk ▸ hc : c.contains k = true)
      rw [hm, Option.some_or]
    · simp [List.lookup_cons, beq_eq_false_iff_ne.2 hkk]
  · rw [tried_of_ok hadd]
    exact List.lookup_append

theorem find?_of_add_ok (h : c.add k make = .ok c') : c'.find? k = some make := by
  obtain ⟨hk, hc⟩ := add_ok_iff.1 ⟨c', h⟩
  have hnone : c.find? k = none := by simpa [contains] using hc
  rw [← tried_of_ok h, find?_tried _ hk, hnone]
  simp

theorem find?_of_add_ok_of_ne (h : c.add k make = .ok c') (hne : k' ≠ k) :
    c'.find? k' = c.find? k' := by
  rw [find?, entries_of_add_ok h, List.lookup_append]
  simp [List.lookup_cons, beq_eq_false_iff_ne.2 hne, find?]

theorem find?_after (requests : List (EventKey × Constructor)) (hk : k ≠ .undefined) :
    (c.after requests).find? k = (c.find? k).or (requests.lookup k) := by
  induction requests generalizing c with
  | nil => simp
  | cons request rest ih =>
    rw [after_cons, ih, find?_tried request hk, Option.or_assoc, ← List.lookup_append]
    rfl

/-- What is bound stays bound to what it is bound to. -/
theorem Sound.find?_later (h : c.Sound) (hc : c.contains k = true)
    (later : List (EventKey × Constructor)) : (c.after later).find? k = c.find? k := by
  have hk : k ≠ .undefined := by
    rintro rfl
    simp [h.contains_undefined] at hc
  obtain ⟨m, hm⟩ := Option.isSome_iff_exists.1 hc
  rw [find?_after later hk, hm, Option.some_or]

/-! ### The list of keys -/

theorem mem_keys : k ∈ c.keys ↔ c.contains k = true := by
  rw [keys, mem_sortBy, contains_iff]

theorem Sound.keys_increasing (h : c.Sound) : c.keys.Pairwise fun a b => a.name < b.name := by
  have hordered : c.keys.Pairwise fun a b => decide (a.name ≤ b.name) = true := by
    refine pairwise_sortBy (fun a b => ?_) (fun x y z => ?_) _
    · simpa using String.le_total a.name b.name
    · simpa using String.le_trans
  have hdistinct : c.keys.Pairwise fun a b => a ≠ b := (perm_sortBy _).nodup_iff.2 h.distinct
  refine (hordered.and hdistinct).imp fun {a b} hab => ?_
  have hnames : a.name ≠ b.name := by
    intro heq
    exact hab.2 (by cases a; cases b; simpa using heq)
  exact lt_of_le_of_ne (of_decide_eq_true hab.1) hnames

theorem length_keys (c : EventCatalogue) : c.keys.length = c.size := by
  rw [keys, length_sortBy, List.length_map, size]

/-! ### What is built under a key -/

theorem eventFor_undefined (c : EventCatalogue) (as : Arguments) :
    c.eventFor .undefined as = .error .undefinedKey := by
  rw [eventFor, if_pos (EventKey.namesNothing_iff.2 rfl)]

theorem eventFor_of_none (hk : k ≠ .undefined) (h : c.find? k = none) :
    c.eventFor k as = .error (.unknownKey k) := by
  rw [eventFor, if_neg fun hn => hk (EventKey.namesNothing_iff.1 hn), h]

theorem eventFor_of_some (hk : k ≠ .undefined) (h : c.find? k = some make) :
    c.eventFor k as = (match make as with
      | .error e => .error e
      | .ok event => if event.key = k then .ok event else .error (.keyedOtherwise k event)) := by
  rw [eventFor, if_neg fun hn => hk (EventKey.namesNothing_iff.1 hn), h]
  rfl

/-- What is built under a key depends on the constructor that the key is bound to, and on nothing else. -/
theorem eventFor_congr (h : c'.find? k = c.find? k) (as : Arguments) :
    c'.eventFor k as = c.eventFor k as := by
  rw [eventFor, eventFor, h]

theorem Sound.defined_of_find? (h : c.Sound) (hm : c.find? k = some make) : k ≠ .undefined := by
  rintro rfl
  have hc := h.contains_undefined
  simp [contains, hm] at hc

theorem Sound.eventFor_ok_iff (h : c.Sound) {event : Event} :
    c.eventFor k as = .ok event ↔
      ∃ make, c.find? k = some make ∧ make as = .ok event ∧ event.key = k := by
  by_cases hk : k = .undefined
  · subst hk
    rw [eventFor_undefined]
    refine ⟨by simp, ?_⟩
    rintro ⟨make, hm, -⟩
    exact absurd rfl (h.defined_of_find? hm)
  · cases hf : c.find? k with
    | none => simp [eventFor_of_none hk hf]
    | some make =>
      rw [eventFor_of_some hk hf]
      cases hmake : make as with
      | error e => simp [hmake]
      | ok built =>
        by_cases hkey : built.key = k
        · simp only [hkey, if_true, Except.ok.injEq, Option.some.injEq, exists_eq_left', hmake]
          refine ⟨?_, And.left⟩
          rintro rfl
          exact ⟨rfl, hkey⟩
        · simp only [hkey, if_false, Option.some.injEq, exists_eq_left', hmake, Except.ok.injEq,
            reduceCtorEq, false_iff]
          rintro ⟨rfl, hkey'⟩
          exact hkey hkey'

theorem Sound.eventFor_error_iff (h : c.Sound) {f : DispatchFailure} :
    c.eventFor k as = .error f ↔
      (k = .undefined ∧ f = .undefinedKey) ∨
      (k ≠ .undefined ∧ c.contains k = false ∧ f = .unknownKey k) ∨
      ∃ make, c.find? k = some make ∧ (make as = .error f ∨
        ∃ event, make as = .ok event ∧ event.key ≠ k ∧ f = .keyedOtherwise k event) := by
  by_cases hk : k = .undefined
  · subst hk
    have hnone : c.find? .undefined = none := by
      simpa [contains] using h.contains_undefined
    simp only [eventFor_undefined, hnone, Except.error.injEq, true_and, ne_eq, not_true, false_and,
      reduceCtorEq, exists_false, or_false]
    exact eq_comm
  · cases hf : c.find? k with
    | none => simp [eventFor_of_none hk hf, hk, contains, hf, eq_comm]
    | some make =>
      rw [eventFor_of_some hk hf]
      cases hmake : make as with
      | error e => simp [hmake, hk, contains, hf]
      | ok built =>
        by_cases hkey : built.key = k
        · simp [hmake, hk, contains, hf, hkey]
        · simp only [hkey, if_false, Except.error.injEq, hk, false_and, contains, hf, Option.isSome_some,
            reduceCtorEq, and_false, Option.some.injEq, exists_eq_left', hmake, false_or,
            Except.ok.injEq, ne_eq, not_false_eq_true, true_and]
          exact eq_comm

end EventCatalogue

/-! ### Write-once, and checked -/

/-- A key of a catalogue that has come from a fresh one by any requests is bound once and for all, to the
first constructor that was asked for it; the undefined key never is. A refused request changes nothing,
an accepted one nothing but its key, and no later request changes what is built under a key that is
bound. Events are built under bound keys only, and have the key under which they are built; every
refusal is the first of the undefined key, the unknown key, the constructor's own and the event's key
being another one. -/
theorem events_bound_once {start c : EventCatalogue} {requests : List (EventKey × Constructor)}
    (hstart : start = .empty ∨ start = .lifecycle) (hc : start.after requests = c) :
    c.contains .undefined = false ∧
    (∀ k, k ≠ .undefined → c.find? k = (start.entries ++ requests).lookup k) ∧
    (∀ k make, (∃ c', c.add k make = .ok c') ↔ k ≠ .undefined ∧ c.contains k = false) ∧
    (∀ k make f, c.add k make = .error f → start.after (requests ++ [(k, make)]) = c) ∧
    (∀ k make c', c.add k make = .ok c' → start.after (requests ++ [(k, make)]) = c' ∧
      c'.find? k = some make ∧ c'.size = c.size + 1 ∧ ∀ k', k' ≠ k →
        c'.contains k' = c.contains k' ∧ ∀ as, c'.eventFor k' as = c.eventFor k' as) ∧
    (∀ later k, c.contains k = true →
      (start.after (requests ++ later)).contains k = true ∧
      ∀ as, (start.after (requests ++ later)).eventFor k as = c.eventFor k as) ∧
    (c.keys.Pairwise fun a b => a.name < b.name) ∧ (∀ k, k ∈ c.keys ↔ c.contains k = true) ∧
    c.keys.length = c.size ∧
    (∀ k as event, c.eventFor k as = .ok event ↔
      ∃ make, c.find? k = some make ∧ make as = .ok event ∧ event.key = k) ∧
    (∀ k as f, c.eventFor k as = .error f ↔
      (k = .undefined ∧ f = .undefinedKey) ∨
      (k ≠ .undefined ∧ c.contains k = false ∧ f = .unknownKey k) ∨
      ∃ make, c.find? k = some make ∧ (make as = .error f ∨
        ∃ event, make as = .ok event ∧ event.key ≠ k ∧ f = .keyedOtherwise k event)) := by
  have hstarts : start.Sound := by
    rcases hstart with rfl | rfl
    · exact EventCatalogue.sound_empty
    · exact EventCatalogue.sound_lifecycle
  have hsound : c.Sound := hc ▸ hstarts.after requests
  refine ⟨hsound.contains_undefined, ?_, ?_, ?_, ?_, ?_, hsound.keys_increasing, ?_, c.length_keys,
    ?_, ?_⟩
  · intro k hk
    rw [← hc, EventCatalogue.find?_after requests hk, List.lookup_append]
    rfl
  · intro k make
    exact EventCatalogue.add_ok_iff
  · intro k make f hadd
    rw [EventCatalogue.after_snoc, hc, EventCatalogue.tried_of_error hadd]
  · intro k make c' hadd
    refine ⟨?_, EventCatalogue.find?_of_add_ok hadd, EventCatalogue.size_of_add_ok hadd, ?_⟩
    · rw [EventCatalogue.after_snoc, hc, EventCatalogue.tried_of_ok hadd]
    · intro k' hk'
      have hfind : c'.find? k' = c.find? k' := EventCatalogue.find?_of_add_ok_of_ne hadd hk'
      exact ⟨by rw [EventCatalogue.contains, hfind, EventCatalogue.contains],
        fun as => EventCatalogue.eventFor_congr hfind as⟩
  · intro later k hk
    have hfind : (start.after (requests ++ later)).find? k = c.find? k := by
      rw [EventCatalogue.after_append, hc]
      exact hsound.find?_later hk later
    exact ⟨by rw [EventCatalogue.contains, hfind]; exact hk,
      fun as => EventCatalogue.eventFor_congr hfind as⟩
  · exact fun k => EventCatalogue.mem_keys
  · exact fun k as event => hsound.eventFor_ok_iff
  · exact fun k as f => hsound.eventFor_error_iff

/-- A key bound to a constructor of another key's events, asked for once more, and the undefined key. -/
def aliasRequests : List (EventKey × Constructor) :=
  [(⟨"test.alias"⟩, .shutdownRequested), (⟨"test.alias"⟩, .phaseCompleted),
    (.undefined, .moduleFaulted)]

/-- The alias stays with the first constructor asked for it, whose events cannot be built under it. -/
theorem events_bound_once_aliased :
    (EventCatalogue.lifecycle.after aliasRequests).find? ⟨"test.alias"⟩ = some .shutdownRequested ∧
    (EventCatalogue.lifecycle.after aliasRequests).eventFor ⟨"test.alias"⟩ ⟨[⟨.sharedStr, "done"⟩]⟩ =
      .error (.keyedOtherwise ⟨"test.alias"⟩ (.shutdownRequested "done")) := by
  have hall := events_bound_once (.inr rfl) (Eq.refl (EventCatalogue.lifecycle.after aliasRequests))
  have hfind := hall.2.1 ⟨"test.alias"⟩ (by decide)
  obtain ⟨-, -, -, -, -, -, -, -, -, -, herror⟩ := hall
  have hbuilt : Constructor.shutdownRequested ⟨[⟨.sharedStr, "done"⟩]⟩ =
      .ok (.shutdownRequested "done") := rfl
  refine ⟨hfind, (herror _ _ _).2 (.inr (.inr ⟨_, hfind, .inr ⟨_, hbuilt, ?_, rfl⟩⟩))⟩
  decide

end Orchestra
