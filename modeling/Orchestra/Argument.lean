import Orchestra.Failure

/-!
# Positional arguments

Events are dispatched by key with an array of arguments of any type.

* `TypeStock` — the types that arguments can have, with the name by which each is reported;
* `ArgType` — the stock of the orchestrator's own events and of the scenarios;
* `Argument` — a value together with its type;
* `Arguments.typed?` — the value at a position, when there is one of the wanted type;
* `Arguments.demand` — the same for the constructor of an event: a failure names the event, the
  position and what was found there.

`Datum` is the untyped form in which arguments and event fields are shown.
-/

namespace Orchestra

/-- A value as it is shown. -/
inductive Datum where
  | null
  | bool (b : Bool)
  | int (n : Int)
  | text (s : String)
  | list (xs : List Datum)
  | record (fields : List (String × Datum))
  deriving Repr, Inhabited

/-- The types that arguments can have.  Types are told apart by equality, never by their names. -/
class TypeStock (T : Type) where
  /-- The values of a type. -/
  Carrier : T → Type
  /-- The name by which a type is reported; different types may share one. -/
  name : T → String

/-- The types that the lifecycle events, and the events of scenarios, are built from. -/
inductive ArgType where
  | u8 | u16 | u32 | u64 | usize
  | i8 | i16 | i32 | i64
  | bool
  | char
  | string
  | str
  | sharedStr
  | phase
  | unit
  deriving DecidableEq, Repr, Inhabited

namespace ArgType

/-- The values of a type.  Nothing computes with words, so they are carried as plain numbers. -/
def Carrier : ArgType → Type
  | u8 | u16 | u32 | u64 | usize => Nat
  | i8 | i16 | i32 | i64 => Int
  | bool => Bool
  | char => Char
  | string | str | sharedStr => String
  | phase => Phase
  | unit => Unit

/-- The name by which a type is reported. -/
def name : ArgType → String
  | u8 => "u8"
  | u16 => "u16"
  | u32 => "u32"
  | u64 => "u64"
  | usize => "usize"
  | i8 => "i8"
  | i16 => "i16"
  | i32 => "i32"
  | i64 => "i64"
  | bool => "bool"
  | char => "char"
  | string => "alloc::string::String"
  | str => "&str"
  | sharedStr => "alloc::sync::Arc<str>"
  | phase => "modvisor::modules::stage::Phase"
  | unit => "()"

instance : TypeStock ArgType := ⟨Carrier, name⟩

/-- A value as it is shown. -/
def shown : (t : ArgType) → t.Carrier → Datum
  | u8, n | u16, n | u32, n | u64, n | usize, n => .int (Int.ofNat n)
  | i8, n | i16, n | i32, n | i64, n => .int n
  | bool, b => .bool b
  | char, c => .text (String.singleton c)
  | string, s | str, s | sharedStr, s => .text s
  | phase, p => .text p.label
  | unit, _ => .null

end ArgType

/-- A value and its type. -/
structure Argument (T : Type := ArgType) [TypeStock T] where
  type : T
  value : TypeStock.Carrier type

/-- An array of arguments. -/
structure Arguments (T : Type := ArgType) [TypeStock T] where
  items : List (Argument T)

section

variable {T : Type} [TypeStock T]

namespace Argument

/-- The value, if it has the wanted type. -/
def get? [DecidableEq T] (a : Argument T) (t : T) : Option (TypeStock.Carrier t) :=
  if h : a.type = t then some (h ▸ a.value) else none

/-- The value as it is shown. -/
def datum (a : Argument) : Datum := a.type.shown a.value

/-- The argument as messages show it: by its type. -/
def text (a : Argument T) : String := "Arg(" ++ Text.quoted (TypeStock.name a.type) ++ ")"

theorem get?_self [DecidableEq T] (a : Argument T) : a.get? a.type = some a.value := by
  simp [get?]

theorem get?_of_ne [DecidableEq T] {a : Argument T} {t : T} (h : a.type ≠ t) :
    a.get? t = none := by
  simp [get?, h]

end Argument

namespace Arguments

/-- No arguments. -/
def empty : Arguments T := ⟨[]⟩

/-- The array with one more argument at its end. -/
def push (as : Arguments T) (a : Argument T) : Arguments T := ⟨as.items ++ [a]⟩

/-- How many arguments there are. -/
def size (as : Arguments T) : Nat := as.items.length

/-- Whether there are no arguments. -/
def isEmpty (as : Arguments T) : Bool := as.items.isEmpty

/-- The argument at a position. -/
def at? (as : Arguments T) (i : Nat) : Option (Argument T) := as.items[i]?

/-- The array as messages show it. -/
def text (as : Arguments T) : String :=
  "Args \x7b items: [" ++ ", ".intercalate (as.items.map Argument.text) ++ "] \x7d"

variable [DecidableEq T]

/-- The value at a position, if there is one of the wanted type. -/
def typed? (as : Arguments T) (t : T) (i : Nat) : Option (TypeStock.Carrier t) :=
  (as.at? i).bind fun a => a.get? t

/-- The value at a position for the constructor of the event `key`. -/
def demand (as : Arguments T) (key : EventKey) (t : T) (i : Nat) :
    Except DispatchFailure (TypeStock.Carrier t) :=
  match as.at? i with
  | none => .error (.missingArgument key i as.size)
  | some a => match a.get? t with
    | none => .error (.argumentType key i (TypeStock.name t) (TypeStock.name a.type))
    | some v => .ok v

/-- A copy of the value at a position for the constructor of the event `key`. -/
def copied (as : Arguments T) (key : EventKey) (t : T) (i : Nat) :
    Except DispatchFailure (TypeStock.Carrier t) :=
  as.demand key t i

/-- Reads the arguments from position `i` on, one for each type in turn. -/
def readFrom (as : Arguments T) (key : EventKey) (i : Nat) :
    List T → Except DispatchFailure (List (Argument T))
  | [] => .ok []
  | t :: rest => match as.copied key t i with
    | .error e => .error e
    | .ok v => match as.readFrom key (i + 1) rest with
      | .error e => .error e
      | .ok vs => .ok (⟨t, v⟩ :: vs)

end Arguments

end

end Orchestra
