import Orchestra.Proofs.Construction
import Orchestra.Proofs.Course

/-!
# Requests one after another

An ensemble may be asked to launch, to shut down and to serve in any order and any number of times.

* `History` — requests that were carried out one after another, with the exchanges of each;
* `Story` — a history of requests; `Chronicle` — one of launches, shutdowns and pauses;
* `Story.chronicle` — every story is told by a chronicle, in which serving is a launch, a pause and
  a shutdown;
* `Biography` — a chronicle in which all but the first launch and the shutdown after it did nothing;
* `Chronicle.biography` — so it is for every ensemble that starts untouched;
* `Story.of_unlaunched` — before the launch nothing has been done.
-/

namespace Orchestra

variable {A : Application}

/-! ### Histories -/

/-- What may be asked of an ensemble. -/
inductive Request where
  | launch
  | shutdown
  | serve
  deriving DecidableEq, Repr, Inhabited

/-- A part of what is done on request. -/
inductive Act where
  | launch
  | shutdown
  | pause
  deriving DecidableEq, Repr, Inhabited

/-- What is done on a request, apart from pauses. -/
def Request.acts : Request → List Act
  | launch => [.launch]
  | shutdown => [.shutdown]
  | serve => [.launch, .shutdown]

/-- Through the given exchanges a request is carried out, and leads from one ensemble to another. -/
def Request.Done (cast : Cast) (name : String) :
    Request → Ensemble → List (Exchange A) → Ensemble → Prop
  | launch, e, tr, e' => ∃ r, Program.Run (e.launch cast name) tr (r, e')
  | shutdown, e, tr, e' => ∃ r, Program.Run (e.shutdown cast name) tr (r, e')
  | serve, e, tr, e' => ∃ r, Program.Run (e.serve cast name) tr (r, e')

/-- Through the given exchanges an act leads from one ensemble to another.  In a pause nothing is
done with the modules. -/
def Act.Done (cast : Cast) (name : String) : Act → Ensemble → List (Exchange A) → Ensemble → Prop
  | launch, e, tr, e' => ∃ r, Program.Run (e.launch cast name) tr (r, e')
  | shutdown, e, tr, e' => ∃ r, Program.Run (e.shutdown cast name) tr (r, e')
  | pause, e, tr, e' => deeds tr = [] ∧ e' = e

/-- Things done one after another, each with its exchanges, from an ensemble to another. -/
inductive History {ρ : Type} (Done : ρ → Ensemble → List (Exchange A) → Ensemble → Prop)
    (e₀ : Ensemble) : List (ρ × List (Exchange A)) → Ensemble → Prop where
  | start : History Done e₀ [] e₀
  | next {T : List (ρ × List (Exchange A))} {e e' : Ensemble} {r : ρ} {tr : List (Exchange A)} :
      History Done e₀ T e → Done r e tr e' → History Done e₀ (T ++ [(r, tr)]) e'

/-- Requests carried out one after another. -/
abbrev Story (cast : Cast) (name : String) :
    Ensemble → List (Request × List (Exchange A)) → Ensemble → Prop :=
  History (Request.Done cast name)

/-- Acts one after another. -/
abbrev Chronicle (cast : Cast) (name : String) :
    Ensemble → List (Act × List (Exchange A)) → Ensemble → Prop :=
  History (Act.Done cast name)

/-- An ensemble can be launched and shut down at any time. -/
theorem Request.exists_done (A : Application) {r : Request} (hr : r ≠ .serve) (cast : Cast)
    (name : String) (e : Ensemble) : ∃ (tr : List (Exchange A)) (e' : Ensemble),
      r.Done cast name e tr e' := by
  cases r with
  | launch =>
    obtain ⟨tr, ⟨result, e'⟩, hrun⟩ :=
      Program.exists_run (A := A) (p := e.launch cast name) Ensemble.only_launch
    exact ⟨tr, e', result, hrun⟩
  | shutdown =>
    obtain ⟨tr, ⟨report, e'⟩, hrun⟩ :=
      Program.exists_run (A := A) (p := e.shutdown cast name) Ensemble.only_shutdown
    exact ⟨tr, e', report, hrun⟩
  | serve => exact absurd rfl hr

/-- All exchanges of a history, in order. -/
def exchanges {ρ : Type} (T : List (ρ × List (Exchange A))) : List (Exchange A) := T.flatMap Prod.snd

@[simp] theorem exchanges_nil {ρ : Type} : exchanges ([] : List (ρ × List (Exchange A))) = [] := rfl

@[simp] theorem exchanges_append {ρ : Type} (T T' : List (ρ × List (Exchange A))) :
    exchanges (T ++ T') = exchanges T ++ exchanges T' :=
  List.flatMap_append

@[simp] theorem exchanges_cons {ρ : Type} (r : ρ) (tr : List (Exchange A))
    (T : List (ρ × List (Exchange A))) : exchanges ((r, tr) :: T) = tr ++ exchanges T := rfl

section

variable {cast : Cast} {name : String} {e₀ e : Ensemble}

/-- The acts of a chronicle that are no pauses. -/
def actsOf (C : List (Act × List (Exchange A))) : List Act :=
  (C.map Prod.fst).filter (· ≠ .pause)

theorem actsOf_append (C C' : List (Act × List (Exchange A))) :
    actsOf (C ++ C') = actsOf C ++ actsOf C' := by
  rw [actsOf, List.map_append, List.filter_append]
  rfl

/-- Every story is told by a chronicle with the same exchanges, and with the acts of its requests. -/
theorem Story.chronicle {T : List (Request × List (Exchange A))} (h : Story cast name e₀ T e) :
    ∃ C, Chronicle cast name e₀ C e ∧ exchanges C = exchanges T ∧
      actsOf C = T.flatMap fun x => x.1.acts := by
  induction h with
  | start => exact ⟨[], .start, rfl, rfl⟩
  | @next T e e' r tr _ hdone ih =>
    obtain ⟨C, hC, hexchanges, hacts⟩ := ih
    have hsame : ∀ D : List (Act × List (Exchange A)), exchanges D = tr → actsOf D = r.acts →
        exchanges (C ++ D) = exchanges (T ++ [(r, tr)]) ∧
          actsOf (C ++ D) = (T ++ [(r, tr)]).flatMap fun x => x.1.acts := by
      intro D hD hD'
      rw [exchanges_append, exchanges_append, hexchanges, actsOf_append, hacts, hD, hD',
        List.flatMap_append]
      simp
    cases r with
    | launch => exact ⟨_, hC.next (r := Act.launch) hdone, hsame _ (by simp) rfl⟩
    | shutdown => exact ⟨_, hC.next (r := Act.shutdown) hdone, hsame _ (by simp) rfl⟩
    | serve =>
      obtain ⟨r, hrun⟩ := hdone
      obtain ⟨_, hcourse⟩ := Ensemble.serve_course hrun
      obtain ⟨t, l, t', t'', c, rfl, hlaunch, hpause, hshutdown, hend⟩ := hcourse.parts
      obtain rfl : e' = c.2 := hend
      have hC₁ := History.next (r := Act.launch) hC ⟨l.1, hlaunch⟩
      have hC₂ := History.next (r := Act.pause) hC₁ ⟨hpause, rfl⟩
      have hC₃ := History.next (r := Act.shutdown) hC₂ ⟨c.1, hshutdown⟩
      rw [List.append_assoc, List.append_assoc] at hC₃
      exact ⟨_, hC₃, hsame _ (by simp) rfl⟩

end

/-! ### Biographies -/

/-- Nothing is done with the modules. -/
def IsUneventful (C : List (Act × List (Exchange A))) : Prop := ∀ x ∈ C, deeds x.2 = []

theorem deeds_exchanges_of_isUneventful {C : List (Act × List (Exchange A))}
    (h : IsUneventful C) : deeds (exchanges C) = [] := by
  induction C with
  | nil => rfl
  | cons x rest ih =>
    obtain ⟨a, tr⟩ := x
    rw [exchanges_cons, deeds_append, h (a, tr) (by simp), List.nil_append]
    exact ih fun y hy => h y (List.mem_cons_of_mem _ hy)

theorem IsUneventful.snoc {C : List (Act × List (Exchange A))} (h : IsUneventful C) {a : Act}
    {tr : List (Exchange A)} (htr : deeds tr = []) : IsUneventful (C ++ [(a, tr)]) := by
  intro x hx
  rcases List.mem_append.1 hx with hx | hx
  · exact h x hx
  · obtain rfl := List.mem_singleton.1 hx
    exact htr

/-- Acts of which none is a shutdown. -/
def IsOpen (C : List (Act × List (Exchange A))) : Prop := ∀ x ∈ C, x.1 ≠ .shutdown

theorem IsOpen.snoc {C : List (Act × List (Exchange A))} (h : IsOpen C) {a : Act}
    {tr : List (Exchange A)} (ha : a ≠ .shutdown) : IsOpen (C ++ [(a, tr)]) := by
  intro x hx
  rcases List.mem_append.1 hx with hx | hx
  · exact h x hx
  · obtain rfl := List.mem_singleton.1 hx
    exact ha

/-- The acts of an ensemble's life: one launch and the shutdown after it, and others in which
nothing is done with the modules. -/
inductive Biography (cast : Cast) (e₀ : Ensemble) : List (Act × List (Exchange A)) → Ensemble → Prop
    where
  | untouched {C : List (Act × List (Exchange A))} : IsUneventful C → Biography cast e₀ C e₀
  | launched {C C' : List (Act × List (Exchange A))} {tr : List (Exchange A)}
      {r : Except LaunchFailure LaunchSummary} {e : Ensemble} : IsUneventful C →
      LaunchCourse cast e₀ (deeds tr) (r, e) → IsUneventful C' → IsOpen C' →
      Biography cast e₀ (C ++ (.launch, tr) :: C') e
  | closed {C C' C'' : List (Act × List (Exchange A))} {tr tr' : List (Exchange A)}
      {r : Except LaunchFailure LaunchSummary} {e : Ensemble} {c : Closing} : IsUneventful C →
      LaunchCourse cast e₀ (deeds tr) (r, e) → IsUneventful C' → IsOpen C' →
      StoppingCourse cast e.shutdownPositions ⟨e.slots, 0, []⟩ (deeds tr') c → IsUneventful C'' →
      Biography cast e₀ (C ++ (.launch, tr) :: C' ++ (.shutdown, tr') :: C'')
        { e with slots := c.slots }

/-! ### Shutdowns that have nothing to do -/

section

variable {cast : Cast} {positions : List Nat} {c c' : Closing} {ds : List Deed}

/-- Where no slot is due, nothing is stopped. -/
theorem StoppingCourse.of_forall_not_isDue (h : StoppingCourse cast positions c ds c')
    (hidle : ∀ s ∈ c.slots, s.isDue = false) : ds = [] ∧ c' = c := by
  induction h with
  | done c => exact ⟨rfl, rfl⟩
  | nobody _ _ ih => exact ih hidle
  | idle _ _ _ ih => exact ih hidle
  | stopped o hslot hdue _ _ =>
    rw [hidle _ (List.mem_of_getElem? hslot)] at hdue
    exact absurd hdue Bool.false_ne_true

/-- A slot that is still due has not been visited. -/
theorem StoppingCourse.not_visited (h : StoppingCourse cast positions c ds c') {i : Nat} {s : Slot}
    (hslot : c'.slots[i]? = some s) (hdue : s.isDue = true) :
    i ∉ positions ∧ c.slots[i]? = some s := by
  induction h with
  | done c => exact ⟨by simp, hslot⟩
  | @nobody j rest c c' ds hnone _ ih =>
    obtain ⟨hi, hs⟩ := ih hslot
    refine ⟨?_, hs⟩
    intro hcases
    rcases hcases with _ | ⟨_, hmem⟩
    · rw [hnone] at hs
      cases hs
    · exact hi hmem
  | @idle j rest c c' ds s' hj hidle _ ih =>
    obtain ⟨hi, hs⟩ := ih hslot
    refine ⟨?_, hs⟩
    intro hcases
    rcases hcases with _ | ⟨_, hmem⟩
    · obtain rfl : s' = s := Option.some.inj (hj.symm.trans hs)
      rw [hidle] at hdue
      cases hdue
    · exact hi hmem
  | @stopped j rest c c' ds s' o hj _ _ ih =>
    obtain ⟨hi, hs⟩ := ih hslot
    by_cases hij : j = i
    · subst hij
      rw [List.getElem?_set_self (List.getElem?_eq_some_iff.1 hj).1] at hs
      obtain rfl := Option.some.inj hs
      cases hdue
    · rw [List.getElem?_set_ne hij] at hs
      refine ⟨?_, hs⟩
      intro hcases
      rcases hcases with _ | ⟨_, hmem⟩
      · exact hij rfl
      · exact hi hmem

theorem Ensemble.mem_shutdownPositions {e : Ensemble} {i : Nat} :
    i ∈ e.shutdownPositions ↔ i < e.slots.length := by
  unfold shutdownPositions
  split
  · exact List.mem_range
  · rw [List.mem_reverse, List.mem_range]

/-- After a shutdown no slot is due. -/
theorem StoppingCourse.forall_not_isDue {e : Ensemble}
    (h : StoppingCourse cast e.shutdownPositions ⟨e.slots, 0, []⟩ ds c') :
    ∀ s ∈ c'.slots, s.isDue = false := by
  intro s hs
  refine Bool.eq_false_iff.2 fun hdue => ?_
  obtain ⟨i, hi⟩ := List.getElem?_of_mem hs
  obtain ⟨hpositions, hslot⟩ := h.not_visited hi hdue
  exact hpositions (Ensemble.mem_shutdownPositions.2 (List.getElem?_eq_some_iff.1 hslot).1)

end

/-! ### Every life is told so -/

theorem LaunchCourse.launched {cast : Cast} {e : Ensemble} {ds : List Deed}
    {r : Except LaunchFailure LaunchSummary × Ensemble} (h : LaunchCourse cast e ds r) :
    r.2.launched = true := by
  rw [h.eq_with]

/-- A second launch does nothing. -/
theorem LaunchCourse.of_launched {cast : Cast} {e : Ensemble} {ds : List Deed}
    {r : Except LaunchFailure LaunchSummary × Ensemble} (h : LaunchCourse cast e ds r)
    (hlaunched : e.launched = true) : ds = [] ∧ r = (.error .alreadyLaunched, e) := by
  cases h with
  | repeated _ => exact ⟨rfl, rfl⟩
  | asserted hfirst _ _ => simp [hlaunched] at hfirst
  | missing hfirst _ _ _ => simp [hlaunched] at hfirst
  | aborted hfirst _ _ _ _ _ _ => simp [hlaunched] at hfirst
  | completed hfirst _ _ _ _ _ _ => simp [hlaunched] at hfirst

theorem Ensemble.Untouched.not_isDue {e : Ensemble} (h : e.Untouched) :
    ∀ s ∈ e.slots, s.isDue = false := by
  intro s hs
  rw [Slot.isDue, (h.slots s hs).1]
  rfl

/-- An ensemble that starts untouched is launched once at most, and only the first shutdown after
that finds anything to do. -/
theorem Chronicle.biography {cast : Cast} {name : String} {e₀ e : Ensemble}
    {C : List (Act × List (Exchange A))} (huntouched : e₀.Untouched)
    (h : Chronicle cast name e₀ C e) : Biography cast e₀ C e := by
  induction h with
  | start => exact .untouched (by simp [IsUneventful])
  | @next C e e' a tr _ hdone ih =>
    cases ih with
    | untouched hC =>
      cases a with
      | launch =>
        obtain ⟨r, hrun⟩ := hdone
        exact .launched hC (Ensemble.launch_course hrun) (by simp [IsUneventful]) (by simp [IsOpen])
      | shutdown =>
        obtain ⟨r, hrun⟩ := hdone
        cases Ensemble.shutdown_course hrun with
        | closed stuck hstopping =>
          obtain ⟨hquiet, rfl⟩ := hstopping.of_forall_not_isDue huntouched.not_isDue
          exact .untouched (hC.snoc hquiet)
      | pause =>
        obtain ⟨hquiet, rfl⟩ := hdone
        exact .untouched (hC.snoc hquiet)
    | @launched C C' tr' r e hC hlaunch hC' hopen =>
      rw [List.append_assoc, List.cons_append]
      cases a with
      | launch =>
        obtain ⟨_, hrun⟩ := hdone
        obtain ⟨hquiet, hend⟩ := (Ensemble.launch_course hrun).of_launched hlaunch.launched
        obtain rfl : e' = e := (Prod.mk.inj hend).2
        exact .launched hC hlaunch (hC'.snoc hquiet) (hopen.snoc (by decide))
      | shutdown =>
        obtain ⟨_, hrun⟩ := hdone
        cases Ensemble.shutdown_course hrun with
        | closed stuck hstopping =>
          rw [← List.cons_append, ← List.append_assoc]
          exact .closed hC hlaunch hC' hopen hstopping (by simp [IsUneventful])
      | pause =>
        obtain ⟨hquiet, rfl⟩ := hdone
        exact .launched hC hlaunch (hC'.snoc hquiet) (hopen.snoc (by decide))
    | @closed C C' C'' tr' tr'' r e c hC hlaunch hC' hopen hstopping hC'' =>
      rw [List.append_assoc, List.cons_append]
      cases a with
      | launch =>
        obtain ⟨_, hrun⟩ := hdone
        obtain ⟨hquiet, hend⟩ := (Ensemble.launch_course hrun).of_launched hlaunch.launched
        obtain rfl : e' = _ := (Prod.mk.inj hend).2
        exact .closed hC hlaunch hC' hopen hstopping (hC''.snoc hquiet)
      | shutdown =>
        obtain ⟨_, hrun⟩ := hdone
        cases Ensemble.shutdown_course hrun with
        | closed stuck hstopped =>
          obtain ⟨hquiet, rfl⟩ := hstopped.of_forall_not_isDue hstopping.forall_not_isDue
          have hclosed :=
            Biography.closed hC hlaunch hC' hopen hstopping (hC''.snoc (a := .shutdown) hquiet)
          exact hclosed
      | pause =>
        obtain ⟨hquiet, rfl⟩ := hdone
        exact .closed hC hlaunch hC' hopen hstopping (hC''.snoc hquiet)

/-- An ensemble that has not been launched is as it was built, and nothing has been done with its modules. -/
theorem Story.of_unlaunched {cast : Cast} {name : String} {e₀ e : Ensemble}
    {T : List (Request × List (Exchange A))} (huntouched : e₀.Untouched)
    (hstory : Story cast name e₀ T e) (hfirst : e.launched = false) :
    e = e₀ ∧ deeds (exchanges T) = [] := by
  obtain ⟨C, hchronicle, hexchanges, -⟩ := hstory.chronicle
  rw [← hexchanges]
  cases hchronicle.biography huntouched with
  | untouched hC => exact ⟨rfl, deeds_exchanges_of_isUneventful hC⟩
  | launched _ hlaunch _ _ =>
    have hlaunched : e.launched = true := hlaunch.launched
    rw [hfirst] at hlaunched
    cases hlaunched
  | @closed _ _ _ _ _ _ e₁ _ _ hlaunch _ _ _ _ =>
    have hlaunched : e₁.launched = true := hlaunch.launched
    have hfirst : e₁.launched = false := hfirst
    rw [hfirst] at hlaunched
    cases hlaunched

end Orchestra
