import Orchestra.Event.Catalogue

/-!
# The shapes of events

A typed constructor reads one argument of each type of its shape, from the first position on, and
makes the event of the values.  The shape is any list of types out of any stock of types.

* `Maker`, `Values` — what makes an event of one value of each type, and such a row of values;
* `Arguments.readAs` — the constructor of a shape: one reading after the other;
* `Arguments.Serves`, `Arguments.Blames` — a position has what is wanted of it, or the failure
  that says what it has instead;
* `Arguments.readAs_ok_iff`, `Arguments.readAs_error_iff` — what a constructor makes, and which
  position it blames;
* `Arguments.readFrom_eq_readAs` — the constructors of scenarios read a shape too;
* `typed_constructors_exact` — a constructor accepts exactly the arrays that begin with its shape,
  and blames the first position that differs from it.
-/

namespace Orchestra

variable {T : Type} [TypeStock T] {E : Type} {types : List T}

/-- What makes an `E` of one value of each type in turn. -/
def Maker (E : Type) : List T → Type
  | [] => E
  | t :: rest => TypeStock.Carrier t → Maker E rest

/-- One value of each type. -/
inductive Values : List T → Type where
  | nil : Values []
  | cons {t : T} {rest : List T} (v : TypeStock.Carrier t) (vs : Values rest) : Values (t :: rest)

namespace Values

/-- The values as arguments. -/
def arguments : {types : List T} → Values types → List (Argument T)
  | _, nil => []
  | t :: _, cons v vs => ⟨t, v⟩ :: vs.arguments

/-- What is made of the values. -/
def build : {types : List T} → Values types → Maker E types → E
  | _, nil, e => e
  | _, cons v vs, make => vs.build (make v)

theorem length_arguments (vs : Values types) : vs.arguments.length = types.length := by
  induction vs with
  | nil => rfl
  | cons v vs ih => simp only [arguments, List.length_cons, ih]

/-- The argument at each position has the type of that position. -/
theorem type_arguments (vs : Values types) : vs.arguments.map Argument.type = types := by
  induction vs with
  | nil => rfl
  | cons v vs ih => simp only [arguments, List.map_cons, ih]

/-- Arguments of the right types are a row of values. -/
theorem exists_arguments {items : List (Argument T)} (h : items.map Argument.type = types) :
    ∃ vs : Values types, vs.arguments = items := by
  subst h
  induction items with
  | nil => exact ⟨nil, rfl⟩
  | cons a items ih =>
    obtain ⟨vs, hvs⟩ := ih
    exact ⟨cons a.value vs, by rw [arguments, hvs]⟩

end Values

/-- What takes a row of values, one value at a time. -/
def Maker.of : (types : List T) → (Values types → E) → Maker E types
  | [], f => f .nil
  | _ :: rest, f => fun v => Maker.of rest fun vs => f (.cons v vs)

/-- What is made of the values one at a time is made of the row. -/
theorem Values.build_of (vs : Values types) (f : Values types → E) :
    vs.build (Maker.of types f) = f vs := by
  induction vs with
  | nil => rfl
  | cons v vs ih => exact ih _

namespace Arguments

variable {as : Arguments T} {key : EventKey} {t : T} {i : Nat} {f : DispatchFailure}

/-- Whether a position has an argument of the wanted type. -/
def Serves (as : Arguments T) (t : T) (i : Nat) : Prop :=
  ∃ a, as.at? i = some a ∧ a.type = t

/-- A failure of the constructor of `key` says what a position has instead of the wanted type. -/
def Blames (as : Arguments T) (key : EventKey) (t : T) (i : Nat) (f : DispatchFailure) : Prop :=
  (as.size ≤ i ∧ f = .missingArgument key i as.size) ∨
    ∃ a, as.at? i = some a ∧ a.type ≠ t ∧
      f = .argumentType key i (TypeStock.name t) (TypeStock.name a.type)

theorem at?_eq_none_iff : as.at? i = none ↔ as.size ≤ i := List.getElem?_eq_none_iff

/-- A row begins at a position when its first argument is there and the rest begins after it. -/
theorem cons_prefix_drop_iff {a : Argument T} {row : List (Argument T)} :
    a :: row <+: as.items.drop i ↔ as.at? i = some a ∧ row <+: as.items.drop (i + 1) := by
  rw [at?, ← List.head?_drop, ← List.tail_drop]
  cases as.items.drop i with
  | nil => simp
  | cons b items => simp [List.cons_prefix_cons, eq_comm]

/-- An array begins with a row of values when it is long enough and has the right types. -/
theorem exists_values_prefix_iff :
    (∃ vs : Values types, vs.arguments <+: as.items) ↔
      types.length ≤ as.size ∧ ∀ i t a, types[i]? = some t → as.at? i = some a → a.type = t := by
  have htypes : (∃ vs : Values types, vs.arguments <+: as.items) ↔
      types <+: as.items.map Argument.type := by
    constructor
    · rintro ⟨vs, hvs⟩
      exact vs.type_arguments ▸ hvs.map _
    · intro h
      obtain ⟨row, hrow, hmap⟩ := List.prefix_map_iff.mp h
      obtain ⟨vs, rfl⟩ := Values.exists_arguments hmap.symm
      exact ⟨vs, hrow⟩
  rw [htypes]
  constructor
  · intro h
    refine ⟨by simpa [Arguments.size] using h.length_le, fun i t a ht ha => ?_⟩
    have hi := List.prefix_iff_getElem?.mp h i (List.getElem?_eq_some_iff.mp ht).1
    rw [List.getElem?_map, show as.items[i]? = some a from ha] at hi
    rw [List.getElem?_eq_getElem (List.getElem?_eq_some_iff.mp ht).1] at ht
    exact Option.some.inj (hi.trans ht)
  · rintro ⟨hlength, h⟩
    refine List.prefix_iff_getElem?.mpr fun i hi => ?_
    have hsize : i < as.items.length := Nat.lt_of_lt_of_le hi hlength
    rw [List.getElem?_map, List.getElem?_eq_getElem hsize, Option.map_some,
      h i _ _ (List.getElem?_eq_getElem hi) (List.getElem?_eq_getElem hsize)]

variable [DecidableEq T] {v : TypeStock.Carrier t}

/-! ### One reading -/

theorem typed?_eq_some_iff : as.typed? t i = some v ↔ as.at? i = some ⟨t, v⟩ := by
  rw [typed?, Option.bind_eq_some_iff]
  constructor
  · rintro ⟨⟨u, w⟩, ha, hv⟩
    by_cases hu : u = t
    · subst hu
      rw [Argument.get?_self] at hv
      cases hv
      exact ha
    · rw [Argument.get?_of_ne hu] at hv
      cases hv
  · exact fun h => ⟨_, h, Argument.get?_self _⟩

theorem demand_ok_iff : as.demand key t i = .ok v ↔ as.at? i = some ⟨t, v⟩ := by
  rw [← typed?_eq_some_iff, demand, typed?]
  cases as.at? i with
  | none => simp
  | some a => cases h : a.get? t <;> simp [h]

theorem demand_error_iff : as.demand key t i = .error f ↔ as.Blames key t i f := by
  rw [demand, Blames, ← at?_eq_none_iff]
  cases as.at? i with
  | none => simp [eq_comm]
  | some a =>
    by_cases hu : a.type = t
    · subst hu
      simp [Argument.get?_self]
    · simp only [Argument.get?_of_ne hu]
      constructor
      · intro h
        cases h
        exact .inr ⟨a, rfl, hu, rfl⟩
      · rintro (⟨h, -⟩ | ⟨b, hb, -, rfl⟩)
        · cases h
        · cases hb
          rfl

theorem demand_missing_iff :
    (∃ k j n, as.demand key t i = .error (.missingArgument k j n)) ↔ as.at? i = none := by
  simp only [demand_error_iff]
  constructor
  · rintro ⟨k, j, n, ⟨hsize, -⟩ | ⟨a, -, -, h⟩⟩
    · exact at?_eq_none_iff.mpr hsize
    · cases h
  · exact fun h => ⟨key, i, as.size, .inl ⟨at?_eq_none_iff.mp h, rfl⟩⟩

/-! ### One reading after the other -/

/-- Reads one argument of each type in turn, from position `i` on, and makes an event of them. -/
def readAs (as : Arguments T) (key : EventKey) :
    (types : List T) → Maker E types → Nat → Except DispatchFailure E
  | [], e, _ => .ok e
  | t :: rest, make, i => do
    let v ← as.copied key t i
    as.readAs key rest (make v) (i + 1)

theorem readAs_cons_ok_iff {rest : List T} {make : Maker E (t :: rest)} {e : E} :
    as.readAs key (t :: rest) make i = .ok e ↔
      ∃ v, as.at? i = some ⟨t, v⟩ ∧ as.readAs key rest (make v) (i + 1) = .ok e := by
  have hserves : ∀ v, as.at? i = some ⟨t, v⟩ ↔ as.demand key t i = .ok v := fun _ => demand_ok_iff.symm
  simp only [hserves]
  rw [readAs, copied]
  cases as.demand key t i with
  | error f => simp [bind, Except.bind]
  | ok v => simp [bind, Except.bind]

theorem readAs_cons_error_iff {rest : List T} {make : Maker E (t :: rest)} :
    as.readAs key (t :: rest) make i = .error f ↔
      as.Blames key t i f ∨
        ∃ v, as.at? i = some ⟨t, v⟩ ∧ as.readAs key rest (make v) (i + 1) = .error f := by
  have hserves : ∀ v, as.at? i = some ⟨t, v⟩ ↔ as.demand key t i = .ok v := fun _ => demand_ok_iff.symm
  simp only [hserves, ← demand_error_iff]
  rw [readAs, copied]
  cases as.demand key t i with
  | error f => simp [bind, Except.bind]
  | ok v => simp [bind, Except.bind]

/-- The readings succeed where a row of values begins, and make what is made of it. -/
theorem readAs_ok_iff {make : Maker E types} {e : E} :
    as.readAs key types make i = .ok e ↔
      ∃ vs : Values types, vs.arguments <+: as.items.drop i ∧ e = vs.build make := by
  induction types generalizing i with
  | nil =>
    constructor
    · intro h
      cases h
      exact ⟨.nil, List.nil_prefix, rfl⟩
    · rintro ⟨vs, -, rfl⟩
      cases vs
      rfl
  | cons t rest ih =>
    rw [readAs_cons_ok_iff]
    constructor
    · rintro ⟨v, hv, h⟩
      obtain ⟨vs, hvs, rfl⟩ := ih.mp h
      exact ⟨.cons v vs, cons_prefix_drop_iff.mpr ⟨hv, hvs⟩, rfl⟩
    · rintro ⟨vs, hvs, rfl⟩
      cases vs with
      | cons v vs =>
        obtain ⟨hv, hvs⟩ := cons_prefix_drop_iff.mp hvs
        exact ⟨v, hv, ih.mpr ⟨vs, hvs, rfl⟩⟩

/-- A failure is the one of the first position that does not serve. -/
theorem readAs_error_iff {make : Maker E types} :
    as.readAs key types make i = .error f ↔
      ∃ j t, types[j]? = some t ∧ as.Blames key t (i + j) f ∧
        ∀ k u, k < j → types[k]? = some u → as.Serves u (i + k) := by
  induction types generalizing i with
  | nil => simp [readAs]
  | cons t rest ih =>
    rw [readAs_cons_error_iff]
    constructor
    · rintro (hf | ⟨v, hv, h⟩)
      · exact ⟨0, t, rfl, hf, fun k u hk => absurd hk k.not_lt_zero⟩
      · obtain ⟨j, u, hu, hf, hbefore⟩ := ih.mp h
        refine ⟨j + 1, u, hu, by rwa [← Nat.add_assoc, Nat.add_right_comm], ?_⟩
        intro k w hk hw
        cases k with
        | zero =>
          cases hw
          exact ⟨_, hv, rfl⟩
        | succ k =>
          rw [← Nat.add_assoc, Nat.add_right_comm]
          exact hbefore k w (Nat.lt_of_succ_lt_succ hk) hw
    · rintro ⟨j, u, hu, hf, hbefore⟩
      cases j with
      | zero =>
        cases hu
        exact .inl hf
      | succ j =>
        obtain ⟨⟨t', v⟩, hv, rfl⟩ := hbefore 0 t j.succ_pos rfl
        refine .inr ⟨v, hv, ih.mpr ⟨j, u, hu, by rwa [Nat.add_right_comm], ?_⟩⟩
        intro k w hk hw
        rw [Nat.add_right_comm]
        exact hbefore (k + 1) w (Nat.succ_lt_succ hk) hw

/-- The constructors of scenarios read a shape and keep the values. -/
theorem readFrom_eq_readAs {g : List (Argument T) → E} :
    (as.readFrom key i types).map g =
      as.readAs key types (Maker.of types fun vs => g vs.arguments) i := by
  induction types generalizing i g with
  | nil => rfl
  | cons t rest ih =>
    rw [readFrom, readAs]
    cases as.copied key t i with
    | error f => rfl
    | ok v =>
      refine Eq.trans ?_ (ih (g := fun vs => g (⟨t, v⟩ :: vs)))
      cases as.readFrom key (i + 1) rest <;> rfl

end Arguments

/-! ### Typed constructors -/

/-- `read` reads the shape `types` for the event `key`: it accepts exactly the arrays that begin
with the shape, makes the event of their values, and otherwise blames the first position that does
not have what the shape wants there. -/
structure ReadsExactly [DecidableEq T] (key : EventKey) (types : List T) (make : Values types → E)
    (read : Arguments T → Except DispatchFailure E) : Prop where
  accepts (as : Arguments T) :
    (∃ e, read as = .ok e) ↔
      types.length ≤ as.size ∧
        ∀ i t a, types[i]? = some t → as.at? i = some a → a.type = t
  fields (as : Arguments T) (e : E) :
    read as = .ok e ↔
      ∃ vs : Values types, as.items.take types.length = vs.arguments ∧ e = make vs
  blames (as : Arguments T) (f : DispatchFailure) :
    read as = .error f ↔
      ∃ i t, types[i]? = some t ∧
        (∀ j u, j < i → types[j]? = some u → ∃ a, as.at? j = some a ∧ a.type = u) ∧
        ((as.size ≤ i ∧ f = .missingArgument key i as.size) ∨
          ∃ a, as.at? i = some a ∧ a.type ≠ t ∧
            f = .argumentType key i (TypeStock.name t) (TypeStock.name a.type))

section

variable [DecidableEq T]

theorem readsExactly_readAs (key : EventKey) (make : Maker E types) :
    ReadsExactly key types (Values.build · make) fun as => as.readAs key types make 0 where
  accepts as := by
    simp only [Arguments.readAs_ok_iff, List.drop_zero, ← Arguments.exists_values_prefix_iff]
    exact ⟨fun ⟨_, vs, hvs, _⟩ => ⟨vs, hvs⟩, fun ⟨vs, hvs⟩ => ⟨_, vs, hvs, rfl⟩⟩
  fields as e := by
    rw [Arguments.readAs_ok_iff]
    refine exists_congr fun vs => and_congr_left' ?_
    rw [List.drop_zero, List.prefix_iff_eq_take, vs.length_arguments, eq_comm]
  blames as f := by
    rw [Arguments.readAs_error_iff]
    refine exists_congr fun i => exists_congr fun t => and_congr_right' ?_
    rw [Nat.zero_add, and_comm]
    simp only [Nat.zero_add, Arguments.Serves, Arguments.Blames]

theorem readsExactly_readFrom (key : EventKey) (types : List T) :
    ReadsExactly key types Values.arguments fun as => as.readFrom key 0 types := by
  have h : (fun as : Arguments T => as.readFrom key 0 types) =
      fun as => as.readAs key types (Maker.of types Values.arguments) 0 := by
    funext as
    refine Eq.trans ?_ (Arguments.readFrom_eq_readAs (g := id))
    cases as.readFrom key 0 types <;> rfl
  have hread := readsExactly_readAs key (Maker.of types Values.arguments)
  simp only [Values.build_of] at hread
  exact h ▸ hread

end

/-- A typed constructor, which reads one argument of each type of its shape in turn, accepts exactly
the arrays that are long enough and have the wanted type at each position of the shape; the event
is made of these values.  Otherwise it blames the first position that differs: for missing, with
the length of the array, or for the type it has.  The lifecycle events, and those of scenarios, are
read so.  At every position a value is got exactly when it is demanded and copied with success, and
it is missing for a demand exactly when nothing stands there. -/
theorem typed_constructors_exact :
    (∀ (T E : Type) [TypeStock T] [DecidableEq T] (key : EventKey) (types : List T)
      (make : Maker E types),
      ReadsExactly key types (Values.build · make) fun as => as.readAs key types make 0) ∧
    ReadsExactly Event.phaseCompletedKey [ArgType.phase, .usize]
      (Values.build · Event.phaseCompleted) Constructor.phaseCompleted ∧
    ReadsExactly Event.moduleFaultedKey [ArgType.str, .phase, .string, .bool]
      (Values.build · Event.moduleFaulted) Constructor.moduleFaulted ∧
    ReadsExactly Event.shutdownRequestedKey [ArgType.sharedStr]
      (Values.build · Event.shutdownRequested) Constructor.shutdownRequested ∧
    (∀ (key : EventKey) (types : List ArgType),
      ReadsExactly key types Values.arguments fun as => as.readFrom key 0 types) ∧
    ∀ (T : Type) [TypeStock T] [DecidableEq T] (as : Arguments T) (key : EventKey) (t : T)
      (i : Nat),
      (∀ v, (as.typed? t i = some v ↔ as.demand key t i = .ok v) ∧
        (as.typed? t i = some v ↔ as.copied key t i = .ok v)) ∧
      ((∃ k j n, as.demand key t i = .error (.missingArgument k j n)) ↔ as.at? i = none) := by
  refine ⟨fun T E _ _ key types make => readsExactly_readAs key make,
    readsExactly_readAs _ _, readsExactly_readAs _ _, readsExactly_readAs _ _,
    fun key types => readsExactly_readFrom key types, fun T _ _ as key t i => ⟨fun v => ?_, ?_⟩⟩
  · have h : as.typed? t i = some v ↔ as.demand key t i = .ok v := by
      rw [Arguments.typed?_eq_some_iff, Arguments.demand_ok_iff]
    exact ⟨h, h⟩
  · exact Arguments.demand_missing_iff

example : Constructor.moduleFaulted ⟨[⟨.str, "db"⟩, ⟨.string, "prepare"⟩]⟩ =
    .error (.argumentType Event.moduleFaultedKey 1 "modvisor::modules::stage::Phase"
      "alloc::string::String") :=
  rfl

end Orchestra
