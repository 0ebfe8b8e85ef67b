import Mathlib.Data.List.Nodup
import Orchestra.Machine.State

/-!
# Taking on workers and letting them go

To take on a worker is to give it a number, to put it on the list and to count it; to let it go is to
strike it off the list and to count it no longer.  Where several of them come and go at once, these parts
happen in any order, except that each worker goes through them one after another.

* `CrewState.reserve`, `CrewState.list`, `CrewState.count` — the parts of `CrewState.enrol`;
* `Stint`, `Hand` — how far a worker has come;
* `CrewState.Mustered` — what a crew has become by such parts, with all workers that it ever had;
* `CrewState.Accounts` — the list has exactly those who have been put on it and not been struck off, and
  exactly those are counted who have been counted and not been released;
* `CrewState.Mustered.accounts` — it is so at every moment.
-/

namespace Orchestra.Machine

/-! ### The parts of taking on a worker -/

namespace CrewState

/-- The crew once it has given away its next number. -/
def reserve (c : CrewState) : CrewState := { c with next := c.next + 1 }

/-- The crew once a worker is on its list. -/
def list (c : CrewState) (number : Nat) (name : String) : CrewState :=
  { c with alive := c.alive ++ [(number, name)] }

/-- The crew once it counts one more worker. -/
def count (c : CrewState) : CrewState := { c with tracked := c.tracked + 1 }

/-- The crew once somebody waits for it. -/
def close (c : CrewState) : CrewState := { c with closed := true, emptied := false }

theorem enrol_eq (c : CrewState) (name : String) :
    c.enrol name = ((c.reserve.list c.next name).count, c.next) := rfl

end CrewState

/-! ### How far a worker has come -/

/-- How far a worker has come. -/
inductive Stint where
  /-- It has its number. -/
  | numbered
  /-- It is on the list. -/
  | listed
  /-- It is counted too, and at work. -/
  | counted
  /-- It has come to its end and is off the list. -/
  | struck
  /-- It is no longer counted. -/
  | released
  deriving DecidableEq, Repr

/-- A worker, now or in former times. -/
structure Hand where
  number : Nat
  name : String
  stint : Stint
  deriving DecidableEq, Repr

namespace Hand

/-- The entry of a worker on the list, from when it is put there until it is struck off. -/
def entry? (h : Hand) : Option (Nat × String) :=
  match h.stint with
  | .listed | .counted => some (h.number, h.name)
  | _ => none

/-- Whether a worker is counted, which it is until it is released. -/
def isCounted (h : Hand) : Bool :=
  match h.stint with
  | .counted | .struck => true
  | _ => false

theorem entry?_fst {h : Hand} {e : Nat × String} (he : h.entry? = some e) : e.1 = h.number := by
  unfold entry? at he
  split at he
  case h_3 => cases he
  all_goals
    cases he
    rfl

end Hand

/-- The entries of workers on the list. -/
def entriesOf (hands : List Hand) : List (Nat × String) := hands.filterMap Hand.entry?

theorem entriesOf_middle (before after : List Hand) (h : Hand) :
    entriesOf (before ++ h :: after) = entriesOf before ++ (h.entry?.toList ++ entriesOf after) := by
  rw [entriesOf, List.filterMap_append, List.filterMap_cons]
  cases h.entry? <;> rfl

theorem entriesOf_append (before after : List Hand) :
    entriesOf (before ++ after) = entriesOf before ++ entriesOf after :=
  List.filterMap_append

theorem countP_isCounted_middle (before after : List Hand) (h : Hand) :
    (before ++ h :: after).countP Hand.isCounted =
      (before ++ after).countP Hand.isCounted + if h.isCounted then 1 else 0 := by
  rw [List.countP_append, List.countP_cons, List.countP_append, Nat.add_assoc]

namespace CrewState

variable {c : CrewState} {hands before after : List Hand} {number : Nat} {name : String}
  {stint stint' : Stint}

/-- What a new crew may have become by the parts of taking on workers and letting them go, those of each
worker in their order, and by being closed. -/
inductive Mustered : CrewState → List Hand → Prop where
  | new : Mustered {} []
  | closes {c : CrewState} {hands : List Hand} : Mustered c hands → Mustered c.close hands
  | reserves {c : CrewState} {hands : List Hand} (name : String) : Mustered c hands →
      Mustered c.reserve (hands ++ [⟨c.next, name, .numbered⟩])
  | lists {c : CrewState} {before after : List Hand} {number : Nat} {name : String} :
      Mustered c (before ++ ⟨number, name, .numbered⟩ :: after) →
      Mustered (c.list number name) (before ++ ⟨number, name, .listed⟩ :: after)
  | counts {c : CrewState} {before after : List Hand} {number : Nat} {name : String} :
      Mustered c (before ++ ⟨number, name, .listed⟩ :: after) →
      Mustered c.count (before ++ ⟨number, name, .counted⟩ :: after)
  | strikes {c : CrewState} {before after : List Hand} {number : Nat} {name : String} :
      Mustered c (before ++ ⟨number, name, .counted⟩ :: after) →
      Mustered (c.dismiss number) (before ++ ⟨number, name, .struck⟩ :: after)
  | releases {c : CrewState} {before after : List Hand} {number : Nat} {name : String} :
      Mustered c (before ++ ⟨number, name, .struck⟩ :: after) →
      Mustered c.uncount (before ++ ⟨number, name, .released⟩ :: after)

/-! ### What a crew knows of them -/

/-- A crew lists those who have been put on the list and not been struck off, and counts those who have been
counted and not been released; the numbers have been given away one after another. -/
structure Accounts (c : CrewState) (hands : List Hand) : Prop where
  numbers : hands.map Hand.number = List.range c.next
  alive : c.alive.Perm (entriesOf hands)
  tracked : c.tracked = hands.countP Hand.isCounted

namespace Accounts

theorem new : Accounts {} [] := ⟨rfl, .refl _, rfl⟩

theorem nodup (h : c.Accounts hands) : (hands.map Hand.number).Nodup := by
  rw [h.numbers]
  exact List.nodup_range

/-- A worker is known by its number. -/
theorem entries_ne (h : c.Accounts (before ++ ⟨number, name, stint⟩ :: after)) :
    ∀ e ∈ entriesOf before ++ entriesOf after, e.1 ≠ number := by
  have hnodup := h.nodup
  rw [List.map_append, List.map_cons, List.nodup_middle, List.nodup_cons, ← List.map_append] at hnodup
  intro e he heq
  rw [← entriesOf_append] at he
  obtain ⟨hand, hhand, hentry⟩ := List.mem_filterMap.1 he
  have hnumber : hand.number = number := (Hand.entry?_fst hentry).symm.trans heq
  exact hnodup.1 (List.mem_map.2 ⟨hand, hhand, hnumber⟩)

theorem numbers_congr : (before ++ ⟨number, name, stint⟩ :: after).map Hand.number =
    (before ++ ⟨number, name, stint'⟩ :: after).map Hand.number := by
  simp only [List.map_append, List.map_cons]

theorem close (h : c.Accounts hands) : c.close.Accounts hands := ⟨h.numbers, h.alive, h.tracked⟩

theorem reserve (h : c.Accounts hands) (name : String) :
    c.reserve.Accounts (hands ++ [⟨c.next, name, .numbered⟩]) where
  numbers := by
    rw [List.map_append, h.numbers]
    exact List.range_succ.symm
  alive := by
    rw [entriesOf_middle, entriesOf]
    exact (List.append_nil (entriesOf hands)).symm ▸ h.alive
  tracked := by
    rw [countP_isCounted_middle, List.append_nil]
    exact h.tracked

theorem list (h : c.Accounts (before ++ ⟨number, name, .numbered⟩ :: after)) :
    (c.list number name).Accounts (before ++ ⟨number, name, .listed⟩ :: after) where
  numbers := numbers_congr.trans h.numbers
  alive := by
    have halive := h.alive
    rw [entriesOf_middle] at halive ⊢
    refine (halive.append_right [(number, name)]).trans ?_
    rw [List.append_assoc]
    exact (List.perm_append_singleton _ _).append_left _
  tracked := by
    have htracked := h.tracked
    rw [countP_isCounted_middle] at htracked ⊢
    exact htracked

theorem count (h : c.Accounts (before ++ ⟨number, name, .listed⟩ :: after)) :
    c.count.Accounts (before ++ ⟨number, name, .counted⟩ :: after) where
  numbers := numbers_congr.trans h.numbers
  alive := by
    have halive := h.alive
    rw [entriesOf_middle] at halive ⊢
    exact halive
  tracked := by
    have htracked := h.tracked
    rw [countP_isCounted_middle] at htracked ⊢
    exact congrArg (· + 1) htracked

theorem strike (h : c.Accounts (before ++ ⟨number, name, .counted⟩ :: after)) :
    (c.dismiss number).Accounts (before ++ ⟨number, name, .struck⟩ :: after) where
  numbers := numbers_congr.trans h.numbers
  alive := by
    have halive := (h.alive.filter fun e => e.1 ≠ number)
    rw [entriesOf_middle] at halive ⊢
    refine halive.trans (.of_eq ?_)
    -- The others have other numbers.
    have hothers := List.forall_mem_append.1 h.entries_ne
    rw [List.filter_append, List.filter_append,
      List.filter_eq_self.2 fun e he => decide_eq_true (hothers.1 e he),
      List.filter_eq_self.2 fun e he => decide_eq_true (hothers.2 e he)]
    simp [Hand.entry?]
  tracked := by
    have htracked := h.tracked
    rw [countP_isCounted_middle] at htracked ⊢
    exact htracked

theorem release (h : c.Accounts (before ++ ⟨number, name, .struck⟩ :: after)) :
    c.uncount.Accounts (before ++ ⟨number, name, .released⟩ :: after) where
  numbers := numbers_congr.trans h.numbers
  alive := by
    have halive := h.alive
    rw [entriesOf_middle] at halive ⊢
    exact halive
  tracked := by
    have htracked := h.tracked
    rw [countP_isCounted_middle] at htracked ⊢
    exact congrArg (· - 1) htracked

/-- As words of 64 bits the numbers are still different, as long as there are enough of them. -/
theorem nodup_words (h : c.Accounts hands) (hfew : hands.length ≤ UInt64.size) :
    (hands.map fun hand => UInt64.ofNat hand.number).Nodup := by
  have hnext : c.next = hands.length := by
    rw [← List.length_map (f := Hand.number), h.numbers, List.length_range]
  show (hands.map (UInt64.ofNat ∘ Hand.number)).Nodup
  rw [← List.map_map, h.numbers]
  refine List.Nodup.map_on (fun a ha b hb heq => ?_) List.nodup_range
  have hwords : ∀ n ∈ List.range c.next, (UInt64.ofNat n).toNat = n := fun n hn =>
    UInt64.toNat_ofNat_of_lt (Nat.lt_of_lt_of_le (List.mem_range.1 hn) (hnext ▸ hfew))
  rw [← hwords a ha, heq, hwords b hb]

/-- The names are told in their order, each as often as workers of that name are on the list. -/
theorem names_sorted (h : c.Accounts hands) :
    c.names.Pairwise (· ≤ ·) ∧ c.names.Perm ((entriesOf hands).map Prod.snd) := by
  refine ⟨?_, (perm_sortBy _).trans (h.alive.map _)⟩
  have hordered : c.names.Pairwise fun a b => decide (a ≤ b) = true := by
    refine pairwise_sortBy (fun a b => ?_) (fun a b c => ?_) _
    · simpa using String.le_total a b
    · simpa using String.le_trans
  exact hordered.imp fun h => of_decide_eq_true h

/-- Whoever is counted no longer is no longer on the list. -/
theorem not_mem_alive (h : c.Accounts (before ++ ⟨number, name, .released⟩ :: after)) :
    ∀ e ∈ c.alive, e.1 ≠ number := by
  intro e he
  have hmem := h.alive.subset he
  rw [entriesOf_middle] at hmem
  exact h.entries_ne e hmem

end Accounts

/-- **A crew accounts for its workers at every moment.** -/
theorem Mustered.accounts (h : c.Mustered hands) : c.Accounts hands := by
  induction h with
  | new => exact .new
  | closes _ ih => exact ih.close
  | reserves name _ ih => exact ih.reserve name
  | lists _ ih => exact ih.list
  | counts _ ih => exact ih.count
  | strikes _ ih => exact ih.strike
  | releases _ ih => exact ih.release

end CrewState

end Orchestra.Machine
