import Orchestra.Proofs.Locking
import Orchestra.Proofs.Steps

/-!
# How tasks share the listeners

* `Core.held`, `Core.wanted` — the claims on a bus that a task uses, and those that it still waits for;
* `Kept` — the lock of a bus has the books of all tasks' claims;
* `Step.kept` — no step of a task spoils the books.
-/

namespace Orchestra.Machine

variable {A : Application}

/-! ### What a task claims -/

/-- A single claim, counted by bus and access. -/
def one (b' : BusId) (a' : Access) (b : BusId) (a : Access) : Nat :=
  if b' = b ∧ a' = a then 1 else 0

/-- The claims that what a task is doing has in use. -/
def Doing.held (b : BusId) : Doing A → Access → Nat
  | waiting (.replacing b' _ _ _) => one b' .write b
  | _ => fun _ => 0

/-- The claims that what a task is doing waits for. -/
def Doing.wanted (b : BusId) : Doing A → Access → Nat
  | waiting (.beginning b' _) | waiting (.reading b' _) => one b' .read b
  | waiting (.editing b' _ _) => one b' .write b
  | _ => fun _ => 0

/-- The claims that deliveries have in use. -/
def heldBy (b : BusId) : List Pass → Access → Nat
  | [] => fun _ => 0
  | p :: rest => fun a => one p.bus .read b a + heldBy b rest a

/-- The claims on a bus that a task uses. -/
def Core.held (b : BusId) (k : Core A) (a : Access) : Nat := k.doing.held b a + heldBy b k.passes a

/-- The claims on a bus that a task waits for. -/
def Core.wanted (b : BusId) (k : Core A) (a : Access) : Nat := k.doing.wanted b a

/-- The claims of one task and those of the others. -/
def charge (t : TaskId) (own : Access → Nat) (others : Claim → Nat) (c : Claim) : Nat :=
  if c.task = t then own c.access else others c

/-- The lock of a bus has the books of the claims. -/
def Kept (b : BusId) (g : Buses) (held wanted : Claim → Nat) : Prop :=
  ∀ bs, g b = some bs → bs.lock.Books held wanted

@[simp] theorem one_self (b : BusId) (a : Access) : one b a b a = 1 := by
  simp [one]

theorem one_of_bus_ne {b b' : BusId} (h : b' ≠ b) (a a' : Access) : one b' a' b a = 0 := by
  simp [one, h]

theorem one_of_access_ne {a a' : Access} (h : a' ≠ a) (b b' : BusId) : one b' a' b a = 0 := by
  simp [one, h]

theorem heldBy_cons (b : BusId) (p : Pass) (rest : List Pass) (a : Access) :
    heldBy b (p :: rest) a = one p.bus .read b a + heldBy b rest a :=
  rfl

theorem heldBy_append (b : BusId) (ps rest : List Pass) (a : Access) :
    heldBy b (ps ++ rest) a = heldBy b ps a + heldBy b rest a := by
  induction ps with
  | nil => simp [heldBy]
  | cons p ps ih =>
    rw [List.cons_append, heldBy_cons, heldBy_cons, ih]
    omega

theorem heldBy_pos {b : BusId} {ps : List Pass} {p : Pass} (hp : p ∈ ps) (hb : p.bus = b) :
    0 < heldBy b ps .read := by
  obtain ⟨before, after, rfl⟩ := List.append_of_mem hp
  rw [heldBy_append, heldBy_cons, hb, one_self]
  omega

theorem Doing.held_of_claim? {t : TaskId} {doing : Doing A} (h : doing.claim? t = none)
    (b : BusId) (a : Access) : doing.held b a = 0 := by
  cases doing with
  | waiting wait => cases wait <;> first | rfl | cases h
  | _ => rfl

theorem Doing.wanted_of_claim? {t : TaskId} {doing : Doing A} (h : doing.claim? t = none)
    (b : BusId) (a : Access) : doing.wanted b a = 0 := by
  cases doing with
  | waiting wait => cases wait <;> first | rfl | cases h
  | _ => rfl

theorem Core.held_of_doing {b : BusId} {doing : Doing A} (h : ∀ a, doing.held b a = 0)
    {calls : Calls A} {ps : List Pass} :
    Core.held b ⟨doing, calls, ps⟩ = heldBy b ps := by
  funext a
  rw [Core.held, h, Nat.zero_add]

@[simp] theorem charge_self (t : TaskId) (own : Access → Nat) (others : Claim → Nat) (a : Access) :
    charge t own others ⟨t, a⟩ = own a := by
  simp [charge]

theorem update_charge {t : TaskId} {own own' : Access → Nat} {others : Claim → Nat} {a : Access}
    {n : Nat} (ha : own' a = n) (hrest : ∀ a', a' ≠ a → own' a' = own a') :
    Function.update (charge t own others) ⟨t, a⟩ n = charge t own' others := by
  funext c
  by_cases hc : c = ⟨t, a⟩
  · subst hc
    rw [Function.update_self, charge_self, ha]
  · rw [Function.update_of_ne hc, charge, charge]
    split
    · next htask =>
      refine (hrest _ fun haccess => hc ?_).symm
      rw [← htask, ← haccess]
    · rfl

section Update

variable {t : TaskId} {b : BusId} {a : Access} {own own' : Access → Nat} {others : Claim → Nat}

/-- A task claims once more. -/
theorem update_more (h : ∀ a', own' a' = own a' + one b a b a') :
    Function.update (charge t own others) ⟨t, a⟩ (own a + 1) = charge t own' others := by
  apply update_charge
  · rw [h, one_self]
  · intro a' ha'
    rw [h, one_of_access_ne ha'.symm, Nat.add_zero]

/-- A task claims once less. -/
theorem update_less (h : ∀ a', own a' = own' a' + one b a b a') :
    Function.update (charge t own others) ⟨t, a⟩ (own a - 1) = charge t own' others := by
  apply update_charge
  · rw [h, one_self, Nat.add_sub_cancel]
  · intro a' ha'
    rw [h, one_of_access_ne ha'.symm, Nat.add_zero]

theorem charge_more_of_ne {b' : BusId} (hb : b' ≠ b) (h : ∀ a', own' a' = own a' + one b' a b a') :
    charge t own' others = charge t own others := by
  have heq : own' = own := by
    funext a'
    rw [h, one_of_bus_ne hb, Nat.add_zero]
  rw [heq]

end Update

/-! ### Operations on the lock -/

namespace Kept

variable {b b' : BusId} {g : Buses} {t : TaskId} {a : Access} {held wanted others others' : Claim → Nat}
  {own own' use use' : Access → Nat}

theorem onLock {held' wanted' : Claim → Nat} {f : Lock → Lock} (h : Kept b g held wanted)
    (hon : b' = b → ∀ l : Lock, l.Books held wanted → (f l).Books held' wanted')
    (hoff : b' ≠ b → held' = held ∧ wanted' = wanted) : Kept b (g.onLock b' f) held' wanted' := by
  intro bs hbs
  by_cases hb : b' = b
  · subst hb
    rw [Buses.onLock, Function.update_self] at hbs
    obtain ⟨old, hold, rfl⟩ := Option.map_eq_some_iff.1 hbs
    exact hon rfl old.lock (h old hold)
  · obtain ⟨rfl, rfl⟩ := hoff hb
    rw [Buses.onLock, Function.update_of_ne (Ne.symm hb)] at hbs
    exact h bs hbs

theorem ask (h : Kept b g held (charge t own others))
    (hown : ∀ a', own' a' = own a' + one b' a b a') :
    Kept b (g.onLock b' fun l => l.ask ⟨t, a⟩) held (charge t own' others) := by
  refine h.onLock (fun hb l hl => ?_) fun hb => ⟨rfl, charge_more_of_ne hb hown⟩
  subst hb
  have hbooks := hl.ask ⟨t, a⟩
  rwa [charge_self, update_more hown] at hbooks

theorem acquire {bs : BusState} (h : Kept b g (charge t use others) (charge t own others'))
    (hbs : g b' = some bs) (hwaiting : bs.lock.isWaiting t = false)
    (hown : ∀ a', own a' = own' a' + one b' a b a')
    (huse : ∀ a', use' a' = use a' + one b' a b a') :
    Kept b g (charge t use' others) (charge t own' others') := by
  by_cases hb : b' = b
  · subst hb
    intro bs' hbs'
    obtain rfl := Option.some.inj (hbs.symm.trans hbs')
    have hwanted : 0 < charge t own others' ⟨t, a⟩ := by
      rw [charge_self, hown, one_self]
      omega
    have hbooks := (h bs hbs).acquire hwanted (Lock.not_mem_queue hwaiting a)
    rwa [charge_self, charge_self, update_more huse, update_less hown] at hbooks
  · rw [charge_more_of_ne hb huse, ← charge_more_of_ne hb hown]
    exact h

theorem release (h : Kept b g (charge t use others) wanted)
    (huse : ∀ a', use a' = use' a' + one b' a b a') :
    Kept b (g.release b' ⟨t, a⟩) (charge t use' others) wanted := by
  refine h.onLock (fun hb l hl => ?_) fun hb => ⟨(charge_more_of_ne hb huse).symm, rfl⟩
  subst hb
  have hheld : 0 < charge t use others ⟨t, a⟩ := by
    rw [charge_self, huse, one_self]
    omega
  have hbooks := hl.release hheld
  rwa [charge_self, update_less huse] at hbooks

theorem endPasses {ps rest : List Pass}
    (h : Kept b g (charge t (heldBy b (ps ++ rest)) others) wanted) :
    Kept b (g.endPasses t ps) (charge t (heldBy b rest) others) wanted := by
  induction ps generalizing g with
  | nil => exact h
  | cons p ps ih =>
    refine ih (h.release fun a' => ?_)
    rw [List.cons_append, heldBy_cons]
    exact Nat.add_comm _ _

theorem withdraw_wanted (h : Kept b g held (charge t own others))
    (hown : ∀ a', own a' = own' a' + one b' a b a') :
    Kept b (g.onLock b' fun l => (l.withdraw ⟨t, a⟩).1) held (charge t own' others) := by
  refine h.onLock (fun hb l hl => ?_) fun hb => ⟨rfl, (charge_more_of_ne hb hown).symm⟩
  subst hb
  have hwanted : 0 < charge t own others ⟨t, a⟩ := by
    rw [charge_self, hown, one_self]
    omega
  have hbooks := hl.withdraw hwanted
  rwa [charge_self, update_less hown] at hbooks

theorem withdraw_held (h : Kept b g (charge t use others) (charge t own others'))
    (hown : own a = 0) (huse : ∀ a', use a' = use' a' + one b' a b a') :
    Kept b (g.onLock b' fun l => (l.withdraw ⟨t, a⟩).1) (charge t use' others)
      (charge t own others') := by
  refine h.onLock (fun hb l hl => ?_) fun hb => ⟨(charge_more_of_ne hb huse).symm, rfl⟩
  subst hb
  have hheld : 0 < charge t use others ⟨t, a⟩ := by
    rw [charge_self, huse, one_self]
    omega
  have hbooks := hl.withdraw_held hheld (by rw [charge_self, hown])
  rwa [charge_self, update_less huse] at hbooks

/-- What a task was doing is given up, and its claims with it. -/
theorem withdraw {doing : Doing A} {calls : Calls A}
    {ps : List Pass} (h : Kept b g (charge t (Core.held b ⟨doing, calls, ps⟩) others)
      (charge t (doing.wanted b) others')) :
    Kept b (g.withdraw (doing.claim? t)) (charge t (heldBy b ps) others)
      (charge t (fun _ => 0) others') := by
  by_cases hclaim : doing.claim? t = none
  · rw [hclaim]
    rwa [Core.held_of_doing (Doing.held_of_claim? hclaim b),
      funext (Doing.wanted_of_claim? hclaim b)] at h
  · cases doing with
    | running p => exact absurd rfl hclaim
    | ended => exact absurd rfl hclaim
    | waiting wait =>
      cases wait with
      | beginning b' next =>
        rw [Core.held_of_doing fun _ => rfl] at h
        exact h.withdraw_wanted fun a' => (Nat.zero_add _).symm
      | reading b' next =>
        rw [Core.held_of_doing fun _ => rfl] at h
        exact h.withdraw_wanted fun a' => (Nat.zero_add _).symm
      | editing b' e next =>
        rw [Core.held_of_doing fun _ => rfl] at h
        exact h.withdraw_wanted fun a' => (Nat.zero_add _).symm
      | replacing b' e copy next => exact h.withdraw_held rfl fun a' => Nat.add_comm _ _
      | _ => exact absurd rfl hclaim

/-- The listeners do not matter to the books. -/
theorem setListeners {set : List ListenerId} (h : Kept b g held wanted) :
    Kept b (g.setListeners b' set) held wanted := by
  intro bs hbs
  by_cases hb : b = b'
  · subst hb
    rw [Buses.setListeners, Function.update_self] at hbs
    obtain ⟨old, hold, rfl⟩ := Option.map_eq_some_iff.1 hbs
    exact h old hold
  · rw [Buses.setListeners, Function.update_of_ne hb] at hbs
    exact h bs hbs

end Kept

/-! ### Steps -/

section Steps

variable {w : World A} {t : TaskId} {b : BusId} {g g' : Buses} {k k' : Core A}
  {others others' : Claim → Nat}

/-- The books of a bus, as far as they are about task `t`. -/
abbrev KeptFor (t : TaskId) (b : BusId) (g : Buses) (k : Core A) (others others' : Claim → Nat) :
    Prop :=
  Kept b g (charge t (k.held b) others) (charge t (k.wanted b) others')

/-- **No step of a task spoils the books**, whatever the other tasks claim. -/
theorem Step.kept (hstep : Step w t g k g' k') (h : KeptFor t b g k others others') :
    KeptFor t b g' k' others others' := by
  cases hstep with
  | @goes doing doing' calls passes hclaim _ hclaim' _ _ _ =>
    have hheld : Core.held b ⟨doing', calls, passes⟩ = Core.held b ⟨doing, calls, passes⟩ := by
      rw [Core.held_of_doing (Doing.held_of_claim? hclaim b),
        Core.held_of_doing (Doing.held_of_claim? hclaim' b)]
    have hwanted : Core.wanted b ⟨doing', calls, passes⟩
        = Core.wanted b ⟨doing, calls, passes⟩ := by
      funext a
      rw [Core.wanted, Core.wanted, Doing.wanted_of_claim? hclaim, Doing.wanted_of_claim? hclaim']
    rw [KeptFor, hheld, hwanted]
    exact h
  | records => exact h
  | looks => exact h
  | enters => exact h
  | wantsToBegin => exact h.ask fun a' => (Nat.zero_add _).symm
  | wantsToRead => exact h.ask fun a' => (Nat.zero_add _).symm
  | wantsToEdit => exact h.ask fun a' => (Nat.zero_add _).symm
  | begins hbs hwaiting =>
    refine Kept.acquire h hbs hwaiting (fun a' => (Nat.zero_add _).symm) fun a' => ?_
    simp only [Core.held, Doing.held, heldBy_cons]
    omega
  | @reads b' bs next calls passes hbs hwaiting =>
    -- The claim is in use for the time of this step only.
    have hheld : KeptFor t b g ⟨.running (next bs.listeners), calls, ⟨b', []⟩ :: passes⟩
        others others' := by
      refine Kept.acquire h hbs hwaiting (fun a' => (Nat.zero_add _).symm) fun a' => ?_
      simp only [Core.held, Doing.held, heldBy_cons]
      omega
    refine Kept.release hheld fun a' => ?_
    simp only [Core.held, Doing.held, heldBy_cons]
    omega
  | copies hbs hwaiting =>
    refine Kept.acquire h hbs hwaiting (fun a' => (Nat.zero_add _).symm) fun a' => ?_
    simp only [Core.held, Doing.held]
    omega
  | replaces =>
    refine Kept.release (Kept.setListeners h) fun a' => ?_
    simp only [Core.held, Doing.held]
    omega
  | ends =>
    refine Kept.release h fun a' => ?_
    simp only [Core.held, Doing.held, heldBy_cons]
    omega
  | endsNothing => exact h
  | @leaves doing depth caller inner rest passes o =>
    rw [KeptFor, Core.held_of_doing fun _ => rfl]
    refine Kept.endPasses ?_
    rw [List.take_append_drop]
    exact Kept.withdraw h
  | @finishes doing calls passes =>
    rw [KeptFor, Core.held_of_doing fun _ => rfl]
    refine Kept.endPasses ?_
    rw [List.append_nil]
    exact Kept.withdraw h

end Steps

end Orchestra.Machine
