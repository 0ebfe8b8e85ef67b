import Mathlib.Logic.Function.Basic
import Orchestra.Machine.Lock

/-!
# The claims on a lock

Of a lock only two things matter to those who use it: that a writer excludes everybody else, and that
every claim is either granted or waits.

* `Exclusive` — a writer among the holders is alone;
* `Lock.Books` — the holders are exclusive, every claim is accounted for, and those in use are granted;
* `Books.ask`, `Books.acquire`, `Books.release`, `Books.withdraw` — what becomes of the books.

The order in which claims are granted plays no part.
-/

namespace Orchestra

/-- A writer among the holders is alone. -/
def Exclusive (holders : List Claim) : Prop := ∀ c ∈ holders, c.access = .write → holders = [c]

/-- The holders are exclusive, and for each claim it is known how often it is held in use, and how
often it is wanted but not in use yet. -/
structure Lock.Books (l : Lock) (held wanted : Claim → Nat) : Prop where
  exclusive : Exclusive l.holders
  total : ∀ c, l.holders.count c + l.queue.count c = held c + wanted c
  granted : ∀ c, held c ≤ l.holders.count c

/-! ### Holders -/

theorem exclusive_nil : Exclusive [] := by
  intro c hc
  cases hc

theorem exclusive_snoc {holders : List Claim} {c : Claim}
    (hc : Lock.admits holders c.access = true) : Exclusive (holders ++ [c]) := by
  cases haccess : c.access with
  | write =>
    rw [haccess, Lock.admits, List.isEmpty_iff] at hc
    rw [hc, List.nil_append]
    intro d hd _
    rw [List.mem_singleton.1 hd]
  | read =>
    rw [haccess, Lock.admits, List.all_eq_true] at hc
    intro d hd hwrite
    rcases List.mem_append.1 hd with hd | hd
    · have hread := of_decide_eq_true (hc d hd)
      rw [hread] at hwrite
      cases hwrite
    · rw [List.mem_singleton.1 hd, haccess] at hwrite
      cases hwrite

theorem Exclusive.erase {holders : List Claim} (h : Exclusive holders) (c : Claim) :
    Exclusive (holders.erase c) := by
  intro d hd hwrite
  have hd' : d ∈ holders := List.mem_of_mem_erase hd
  rw [h d hd' hwrite] at hd ⊢
  by_cases heq : d = c
  · rw [heq, List.erase_cons_head] at hd
    cases hd
  · rw [List.erase_cons_tail (by simpa using heq), List.erase_nil]

/-- A writer that holds the lock holds it alone. -/
theorem Exclusive.eq_of_mem {holders : List Claim} (h : Exclusive holders) {t u : Claim}
    (ht : t ∈ holders) (hwrite : t.access = .write) (hu : u ∈ holders) : u = t := by
  rw [h t ht hwrite] at hu
  exact List.mem_singleton.1 hu

namespace Lock

theorem not_mem_queue {l : Lock} {t : TaskId} (h : l.isWaiting t = false) (a : Access) :
    (⟨t, a⟩ : Claim) ∉ l.queue := by
  intro hmem
  have hany : l.isWaiting t = true := List.any_eq_true.2 ⟨_, hmem, decide_eq_true rfl⟩
  rw [hany] at h
  cases h

theorem exclusive_settleFrom {holders : List Claim} (queue : List Claim) (h : Exclusive holders) :
    Exclusive (settleFrom holders queue).1.holders := by
  induction queue generalizing holders with
  | nil => exact h
  | cons c rest ih =>
    rw [settleFrom]
    split
    · exact ih (exclusive_snoc ‹_›)
    · exact h

theorem count_settleFrom (holders queue : List Claim) (d : Claim) :
    (settleFrom holders queue).1.holders.count d + (settleFrom holders queue).1.queue.count d
      = holders.count d + queue.count d := by
  induction queue generalizing holders with
  | nil => rfl
  | cons c rest ih =>
    rw [settleFrom]
    split
    · have hrest := ih (holders ++ [c])
      have hfront : (c :: rest).count d = [c].count d + rest.count d := by
        rw [← List.count_append, List.singleton_append]
      rw [List.count_append] at hrest
      show (settleFrom (holders ++ [c]) rest).1.holders.count d
        + (settleFrom (holders ++ [c]) rest).1.queue.count d = _
      omega
    · rfl

theorem le_count_settleFrom (holders queue : List Claim) (d : Claim) :
    holders.count d ≤ (settleFrom holders queue).1.holders.count d := by
  induction queue generalizing holders with
  | nil => exact Nat.le_refl _
  | cons c rest ih =>
    rw [settleFrom]
    split
    · refine Nat.le_trans ?_ (ih (holders ++ [c]))
      rw [List.count_append]
      exact Nat.le_add_right _ _
    · exact Nat.le_refl _

namespace Books

variable {l : Lock} {held wanted : Claim → Nat} {c : Claim}

/-- Granting what can be granted keeps the books. -/
theorem of_settleFrom {holders queue : List Claim} (hexclusive : Exclusive holders)
    (htotal : ∀ d, holders.count d + queue.count d = held d + wanted d)
    (hgranted : ∀ d, held d ≤ holders.count d) :
    (settleFrom holders queue).1.Books held wanted where
  exclusive := exclusive_settleFrom queue hexclusive
  total d := by rw [count_settleFrom, htotal]
  granted d := Nat.le_trans (hgranted d) (le_count_settleFrom holders queue d)

theorem ask (h : l.Books held wanted) (c : Claim) :
    (l.ask c).Books held (Function.update wanted c (wanted c + 1)) := by
  have hcount : ∀ d, held d + wanted d + List.count d [c]
      = held d + Function.update wanted c (wanted c + 1) d := by
    intro d
    by_cases hd : d = c
    · subst hd
      simp
      omega
    · rw [Function.update_of_ne hd, List.count_singleton]
      simp [Ne.symm hd]
  unfold Lock.ask
  split
  · next hask =>
    refine ⟨exclusive_snoc (Bool.and_eq_true_iff.1 hask).2, fun d => ?_, fun d => ?_⟩
    · have htotal := h.total d
      have hd := hcount d
      show (l.holders ++ [c]).count d + l.queue.count d = _
      rw [List.count_append]
      omega
    · show held d ≤ (l.holders ++ [c]).count d
      rw [List.count_append]
      exact Nat.le_trans (h.granted d) (Nat.le_add_right _ _)
  · refine ⟨h.exclusive, fun d => ?_, h.granted⟩
    have htotal := h.total d
    have hd := hcount d
    show l.holders.count d + (l.queue ++ [c]).count d = _
    rw [List.count_append]
    omega

/-- A claim that no longer waits is taken into use. -/
theorem acquire (h : l.Books held wanted) (hwanted : 0 < wanted c) (hqueue : c ∉ l.queue) :
    l.Books (Function.update held c (held c + 1)) (Function.update wanted c (wanted c - 1)) := by
  refine ⟨h.exclusive, fun d => ?_, fun d => ?_⟩
  · by_cases hd : d = c
    · subst hd
      have htotal := h.total d
      rw [Function.update_self, Function.update_self]
      omega
    · rw [Function.update_of_ne hd, Function.update_of_ne hd, h.total]
  · by_cases hd : d = c
    · subst hd
      have htotal := h.total d
      rw [List.count_eq_zero_of_not_mem hqueue] at htotal
      rw [Function.update_self]
      omega
    · rw [Function.update_of_ne hd]
      exact h.granted d

theorem mem_holders (h : l.Books held wanted) (hheld : 0 < held c) : c ∈ l.holders :=
  List.count_pos_iff.1 (Nat.lt_of_lt_of_le hheld (h.granted c))

/-- A claim that no longer waits has been granted. -/
theorem mem_holders_of_wanted (h : l.Books held wanted) (hwanted : 0 < wanted c)
    (hqueue : c ∉ l.queue) : c ∈ l.holders := by
  have htotal := h.total c
  rw [List.count_eq_zero_of_not_mem hqueue] at htotal
  exact List.count_pos_iff.1 (by omega)

/-- A claim in use is given back. -/
theorem release (h : l.Books held wanted) (hheld : 0 < held c) :
    (l.release c).1.Books (Function.update held c (held c - 1)) wanted := by
  refine of_settleFrom (h.exclusive.erase c) (fun d => ?_) fun d => ?_
  · have htotal := h.total d
    have hgranted := h.granted d
    by_cases hd : d = c
    · subst hd
      show (l.holders.erase d).count d + l.queue.count d = _
      rw [List.count_erase_self, Function.update_self]
      omega
    · rw [List.count_erase_of_ne hd, Function.update_of_ne hd, htotal]
  · have hgranted := h.granted d
    by_cases hd : d = c
    · subst hd
      rw [List.count_erase_self, Function.update_self]
      omega
    · rwa [List.count_erase_of_ne hd, Function.update_of_ne hd]

/-- A claim that is not in use is taken back, whether it waits or has been granted. -/
theorem withdraw (h : l.Books held wanted) (hwanted : 0 < wanted c) :
    (l.withdraw c).1.Books held (Function.update wanted c (wanted c - 1)) := by
  unfold Lock.withdraw
  split
  · next hqueue =>
    have hpos := List.count_pos_iff.2 hqueue
    refine of_settleFrom h.exclusive (fun d => ?_) h.granted
    have htotal := h.total d
    by_cases hd : d = c
    · subst hd
      show l.holders.count d + (l.queue.erase d).count d = _
      rw [List.count_erase_self, Function.update_self]
      omega
    · show l.holders.count d + (l.queue.erase c).count d = _
      rw [List.count_erase_of_ne hd, Function.update_of_ne hd, htotal]
  · next hqueue =>
    -- The claim has been granted, so it is held once more than it is in use.
    have hnone := List.count_eq_zero_of_not_mem hqueue
    refine of_settleFrom (h.exclusive.erase c) (fun d => ?_) fun d => ?_
    · have htotal := h.total d
      by_cases hd : d = c
      · subst hd
        show (l.holders.erase d).count d + l.queue.count d = _
        rw [List.count_erase_self, Function.update_self]
        omega
      · rw [List.count_erase_of_ne hd, Function.update_of_ne hd, htotal]
    · have htotal := h.total d
      have hgranted := h.granted d
      by_cases hd : d = c
      · subst hd
        rw [List.count_erase_self]
        omega
      · rwa [List.count_erase_of_ne hd]

/-- Taking back a claim in use, when there is no other like it, is giving it back. -/
theorem withdraw_held (h : l.Books held wanted) (hheld : 0 < held c) (hwanted : wanted c = 0) :
    (l.withdraw c).1.Books (Function.update held c (held c - 1)) wanted := by
  have hqueue : c ∉ l.queue := by
    have htotal := h.total c
    have hgranted := h.granted c
    exact List.count_eq_zero.1 (by omega)
  rw [Lock.withdraw, if_neg hqueue]
  exact h.release hheld

/-- While a writer uses the lock nobody else does. -/
theorem eq_of_write (h : l.Books held wanted) (hheld : 0 < held c) (hwrite : c.access = .write)
    {d : Claim} (hd : 0 < held d) : d = c :=
  h.exclusive.eq_of_mem (h.mem_holders hheld) hwrite (h.mem_holders hd)

end Books

end Lock

end Orchestra
