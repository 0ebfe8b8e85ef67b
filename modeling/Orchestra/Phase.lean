/-!
# Phases and stages

A module is driven through six phases; the stage it has reached is the last phase it completed.

* `Phase` — the steps of a module's life, in the order in which they are run;
* `Phase.startup` — the phases of a launch that follow the assertion;
* `Phase.abortsLaunch` — whether a mandatory module that fails the phase aborts the launch;
* `Stage` — how far a module has come, ordered by `Stage.rank`;
* `Stage.after` — the stage that a phase leads to.
-/

namespace Orchestra

/-- A step of a module's life that all modules take together. -/
inductive Phase where
  | assertion
  | init
  | preLaunch
  | launch
  | postLaunch
  | shutdown
  deriving DecidableEq, Repr, Inhabited

namespace Phase

/-- Every phase, in the order of a module's life. -/
def all : List Phase := [assertion, init, preLaunch, launch, postLaunch, shutdown]

/-- The phases of a launch once every assertion has held. -/
def startup : List Phase := [init, preLaunch, launch, postLaunch]

/-- Whether the failure of a mandatory module in this phase aborts the launch.  Failures before
and after the launch proper are only reported. -/
def abortsLaunch : Phase → Bool
  | init | launch => true
  | _ => false

/-- The short name used in records and events. -/
def label : Phase → String
  | assertion => "assert"
  | init => "init"
  | preLaunch => "pre-launch"
  | launch => "launch"
  | postLaunch => "post-launch"
  | shutdown => "shutdown"

/-- The name of a phase among the parts of a failure. -/
def name : Phase → String
  | assertion => "Assert"
  | init => "Init"
  | preLaunch => "PreLaunch"
  | launch => "Launch"
  | postLaunch => "PostLaunch"
  | shutdown => "Shutdown"

/-- The place of a phase in a module's life. -/
def rank : Phase → Nat
  | assertion => 0
  | init => 1
  | preLaunch => 2
  | launch => 3
  | postLaunch => 4
  | shutdown => 5

end Phase

/-- How far a module has come. -/
inductive Stage where
  | unstarted
  | asserted
  | initialized
  | preLaunched
  | launched
  | postLaunched
  | shutdown
  deriving DecidableEq, Repr, Inhabited

namespace Stage

/-- Every stage, from first to last. -/
def all : List Stage :=
  [unstarted, asserted, initialized, preLaunched, launched, postLaunched, shutdown]

/-- The stage reached once a phase has been completed. -/
def after : Phase → Stage
  | .assertion => asserted
  | .init => initialized
  | .preLaunch => preLaunched
  | .launch => launched
  | .postLaunch => postLaunched
  | .shutdown => shutdown

/-- The short name used in records and reports. -/
def label : Stage → String
  | unstarted => "unstarted"
  | asserted => "asserted"
  | initialized => "initialized"
  | preLaunched => "pre-launched"
  | launched => "launched"
  | postLaunched => "post-launched"
  | shutdown => "shutdown"

/-- The place of a stage on the way from the first to the last. -/
def rank : Stage → Nat
  | unstarted => 0
  | asserted => 1
  | initialized => 2
  | preLaunched => 3
  | launched => 4
  | postLaunched => 5
  | shutdown => 6

instance : LE Stage := ⟨fun a b => a.rank ≤ b.rank⟩
instance : LT Stage := ⟨fun a b => a.rank < b.rank⟩
instance (a b : Stage) : Decidable (a ≤ b) := inferInstanceAs (Decidable (a.rank ≤ b.rank))
instance (a b : Stage) : Decidable (a < b) := inferInstanceAs (Decidable (a.rank < b.rank))
instance : Ord Stage := ⟨fun a b => compare a.rank b.rank⟩

theorem le_def {a b : Stage} : a ≤ b ↔ a.rank ≤ b.rank := Iff.rfl

theorem lt_def {a b : Stage} : a < b ↔ a.rank < b.rank := Iff.rfl

theorem rank_after (p : Phase) : (after p).rank = p.rank + 1 := by cases p <;> rfl

theorem rank_inj {a b : Stage} (h : a.rank = b.rank) : a = b := by
  cases a <;> cases b <;> first | rfl | simp [rank] at h

end Stage

end Orchestra
