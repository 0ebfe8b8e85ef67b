import Orchestra.Duration
import Orchestra.Event.Key
import Orchestra.Phase
import Orchestra.Text.Quoted

/-!
# Failures

One type of causes per concern, each with a stable `label` for records and a `message` for people.
What can end a program has a text `inFull` as well, which names all its parts:

* `HookFailure` — a module hook, a listener or a preparation failed;
* `DispatchFailure` — no event could be built from a key and arguments;
* `Refusal` — a catalogue refused an entry, or the modules cannot be ordered;
* `LaunchFailure` — the modules could not be brought up; `LaunchFailure.endsProcess` tells the
  causes that end the process.
-/

namespace Orchestra

/-! ### Hooks -/

/-- The kinds of input and output failures that a hook may report. -/
inductive IoCause where
  | notFound
  | permissionDenied
  | alreadyExists
  | timedOut
  deriving DecidableEq, Repr, Inhabited

/-- The text of a failure that came without words of its own. -/
def IoCause.message : IoCause → String
  | notFound => "entity not found"
  | permissionDenied => "permission denied"
  | alreadyExists => "entity already exists"
  | timedOut => "timed out"

/-- The name of a failure among the parts of another one. -/
def IoCause.name : IoCause → String
  | notFound => "NotFound"
  | permissionDenied => "PermissionDenied"
  | alreadyExists => "AlreadyExists"
  | timedOut => "TimedOut"

/-- Why a hook, a listener or a preparation failed. -/
inductive HookFailure where
  /-- A condition of the environment does not hold. -/
  | precondition (reason : String)
  /-- The hook ran and failed. -/
  | failed (reason : String)
  /-- The hook did not return within its limit. -/
  | timedOut (limit : Duration)
  /-- The hook panicked. -/
  | panicked (info : String)
  /-- The hook's environment failed it. -/
  | io (cause : IoCause) (text : Option String)
  deriving DecidableEq, Repr, Inhabited

namespace HookFailure

/-- The stable name of the cause. -/
def label : HookFailure → String
  | precondition _ => "hook_precondition"
  | failed _ => "hook_failed"
  | timedOut _ => "hook_timeout"
  | panicked _ => "hook_panicked"
  | io .. => "hook_io"

/-- The cause in words. -/
def message : HookFailure → String
  | precondition reason => "precondition failed: " ++ reason
  | failed reason => "hook failed: " ++ reason
  | timedOut limit => "timed out after " ++ limit.text
  | panicked info => "panicked: " ++ info
  | io cause text => text.getD cause.message

/-- The cause with all its parts. -/
def inFull : HookFailure → String
  | precondition reason => Text.inParts "Precondition" [("reason", Text.quoted reason)]
  | failed reason => Text.inParts "Fail" [("error", Text.quoted reason)]
  | timedOut limit => Text.inParts "Timeout" [("timeout", limit.text)]
  | panicked info => Text.inParts "Panicked" [("info", Text.quoted info)]
  | io cause none => "Io(Kind(" ++ cause.name ++ "))"
  | io cause (some text) =>
    "Io(" ++ Text.inParts "Custom" [("kind", cause.name), ("error", Text.quoted text)] ++ ")"

end HookFailure

/-! ### Dispatch -/

/-- Why no event could be built from a key and arguments. -/
inductive DispatchFailure where
  /-- The undefined key was dispatched. -/
  | undefinedKey
  /-- Nothing is registered under the key. -/
  | unknownKey (key : EventKey)
  /-- There are too few arguments. -/
  | missingArgument (key : EventKey) (index length : Nat)
  /-- An argument has another type than the event needs. -/
  | argumentType (key : EventKey) (index : Nat) (expected found : String)
  /-- The constructor refused the arguments for a reason of its own. -/
  | construction (key : EventKey) (reason : String)
  deriving DecidableEq, Repr, Inhabited

namespace DispatchFailure

/-- The stable name of the cause. -/
def label : DispatchFailure → String
  | undefinedKey => "dispatch_undefined_key"
  | unknownKey _ => "dispatch_unknown_key"
  | missingArgument .. => "dispatch_missing_argument"
  | argumentType .. => "dispatch_argument_type"
  | construction .. => "dispatch_construction"

/-- The cause in words. -/
def message : DispatchFailure → String
  | undefinedKey => "the undefined event key cannot be dispatched"
  | unknownKey key => s!"no event registered under key `{key.text}`"
  | missingArgument key index length =>
    s!"event `{key.text}` expects an argument at position {index}, got {length} argument(s)"
  | argumentType key index expected found =>
    s!"event `{key.text}` argument {index}: expected `{expected}`, found `{found}`"
  | construction key reason => s!"event `{key.text}` could not be constructed: {reason}"

end DispatchFailure

/-! ### Catalogues -/

/-- Why a catalogue refused an entry, or why the modules cannot be ordered. -/
inductive Refusal where
  /-- The module type is there already. -/
  | duplicateKind (kind : String)
  /-- Another module type has the weight. -/
  | duplicateWeight (kind existing : String) (weight : Nat)
  /-- The module type is not in the catalogue. -/
  | unknownKind (kind : String)
  /-- The module types depend on each other in a circle. -/
  | cycle (kinds : List String)
  /-- The undefined key cannot carry an event. -/
  | undefinedKey
  /-- The key carries an event already. -/
  | duplicateKey (key : EventKey)
  deriving DecidableEq, Repr, Inhabited

namespace Refusal

/-- The stable name of the cause. -/
def label : Refusal → String
  | duplicateKind _ => "registry_duplicate_kind"
  | duplicateWeight .. => "registry_duplicate_weight"
  | unknownKind _ => "registry_unknown_kind"
  | cycle _ => "registry_dependency_cycle"
  | undefinedKey => "registry_undefined_key"
  | duplicateKey _ => "registry_duplicate_key"

/-- The cause in words. -/
def message : Refusal → String
  | duplicateKind kind => s!"module type `{kind}` is already registered"
  | duplicateWeight kind existing weight =>
    s!"ordering weight {weight} of `{kind}` is already used by `{existing}`"
  | unknownKind kind => s!"module type `{kind}` is not registered"
  | cycle kinds => "module dependencies form a cycle between: " ++ Text.quotedList kinds
  | undefinedKey => "the undefined event key cannot be registered"
  | duplicateKey key => s!"event key `{key.text}` is already registered"

/-- The cause with all its parts. -/
def inFull : Refusal → String
  | duplicateKind kind => Text.inParts "DuplicateKind" [("kind", Text.quoted kind)]
  | duplicateWeight kind existing weight =>
    Text.inParts "DuplicateWeight"
      [("kind", Text.quoted kind), ("existing", Text.quoted existing), ("weight", toString weight)]
  | unknownKind kind => Text.inParts "UnknownKind" [("kind", Text.quoted kind)]
  | cycle kinds => Text.inParts "DependencyCycle" [("kinds", Text.quotedList kinds)]
  | undefinedKey => "UndefinedKey"
  | duplicateKey key =>
    Text.inParts "DuplicateKey" [("key", "EventKey(" ++ Text.quoted key.name ++ ")")]

end Refusal

/-! ### Launch -/

/-- Why the modules could not be brought up. -/
inductive LaunchFailure where
  /-- A module's precondition does not hold. -/
  | assertionFailed (module : String) (source : HookFailure)
  /-- A required kind of module is missing. -/
  | missingMandatory (kind title : String)
  /-- A mandatory module failed; the remaining phases were not run. -/
  | sequenceAborted (module : String) (phase : Phase) (source : HookFailure)
  /-- The modules cannot be ordered. -/
  | ordering (source : Refusal)
  /-- The modules have been launched before. -/
  | alreadyLaunched
  deriving DecidableEq, Repr, Inhabited

namespace LaunchFailure

/-- The stable name of the cause. -/
def label : LaunchFailure → String
  | assertionFailed .. => "launch_assertion_failed"
  | missingMandatory .. => "launch_missing_mandatory"
  | sequenceAborted .. => "launch_sequence_aborted"
  | ordering _ => "launch_ordering"
  | alreadyLaunched => "launch_already_launched"

/-- The cause in words. -/
def message : LaunchFailure → String
  | assertionFailed module source =>
    s!"module `{module}` failed its precondition assertion: " ++ source.message
  | missingMandatory _ title => s!"mandatory module `{title}` is missing"
  | sequenceAborted module phase source =>
    s!"launch sequence aborted: mandatory module `{module}` failed during {phase.label}: "
      ++ source.message
  | ordering source => source.message
  | alreadyLaunched => "modules have already been launched"

/-- The cause with all its parts. -/
def inFull : LaunchFailure → String
  | assertionFailed module source =>
    Text.inParts "AssertionFailed" [("module", Text.quoted module), ("source", source.inFull)]
  | missingMandatory kind title =>
    Text.inParts "MissingMandatory"
      [("kind", Text.quoted kind), ("display_name", Text.quoted title)]
  | sequenceAborted module phase source =>
    Text.inParts "SequenceAborted"
      [("module", Text.quoted module), ("phase", phase.name), ("source", source.inFull)]
  | ordering source => "Ordering(" ++ source.inFull ++ ")"
  | alreadyLaunched => "AlreadyLaunched"

/-- Whether the failure ends the process. -/
def endsProcess : LaunchFailure → Bool
  | assertionFailed .. | missingMandatory .. => true
  | _ => false

/-- The hook failure behind a launch failure, when there is one. -/
def source? : LaunchFailure → Option HookFailure
  | assertionFailed _ source | sequenceAborted _ _ source => some source
  | _ => none

end LaunchFailure

end Orchestra
