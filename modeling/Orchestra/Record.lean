import Orchestra.Text.Quoted

/-!
# Log records

* `Level` — how much a record matters;
* `Field` — a named value of a record; a plain text is quoted on the console, a value that was
  turned into text by its own rules is not;
* `Record` — level, origin, message and fields; `Record.line` is its console form.
-/

namespace Orchestra

/-- How much a record matters, least first. -/
inductive Level where
  | trace
  | debug
  | info
  | warn
  | error
  deriving DecidableEq, Repr, Inhabited

namespace Level

/-- The name of a level in front of a console line. -/
def label : Level → String
  | trace => "TRACE"
  | debug => "DEBUG"
  | info => "INFO"
  | warn => "WARN"
  | error => "ERROR"

/-- The place of a level, the least first. -/
def rank : Level → Nat
  | trace => 0
  | debug => 1
  | info => 2
  | warn => 3
  | error => 4

end Level

/-- A named value of a record. -/
structure Field where
  name : String
  text : String
  /-- Whether the value is a plain text, which the console quotes. -/
  isPlain : Bool
  deriving DecidableEq, Repr, Inhabited

namespace Field

/-- A plain text. -/
def plain (name text : String) : Field := ⟨name, text, true⟩

/-- A value that has been turned into text. -/
def shown (name text : String) : Field := ⟨name, text, false⟩

/-- A number. -/
def number (name : String) (n : Nat) : Field := ⟨name, toString n, false⟩

/-- A field on the console. -/
def line (f : Field) : String :=
  f.name ++ "=" ++ if f.isPlain then Text.quoted f.text else f.text

end Field

/-- One record. -/
structure Record where
  level : Level
  /-- The part of the program that wrote the record. -/
  origin : String
  message : String
  fields : List Field
  deriving DecidableEq, Repr, Inhabited

/-- A record on the console: its message, then its fields. -/
def Record.line (r : Record) : String :=
  " ".intercalate (r.message :: r.fields.map Field.line)

/-! ### Origins -/

namespace Origin

def orchestrator : String := "modvisor::core::orchestrator"
def builder : String := "modvisor::core::builder"
def workers : String := "modvisor::core::workers"
def bus : String := "modvisor::events::bus"
def eventLog : String := "modvisor::listeners::log"

end Origin

end Orchestra
