import Orchestra.Text.Shown

/-!
# Quoted text

How texts and lists of texts are written inside messages:

* `quoted` — a text between double quotes; a quote or backslash inside gets a backslash, five
  control characters have short names, and a character that leaves no mark is written by its code;
* `quotedList` — quoted texts between brackets, a comma and a blank between them;
* `inParts` — a name and named parts between braces.
-/

namespace Orchestra.Text

/-- The written form of one character between double quotes. -/
def escaped (c : Char) : List Char :=
  match c with
  | '"' => ['\\', '"']
  | '\\' => ['\\', '\\']
  | '\t' => ['\\', 't']
  | '\n' => ['\\', 'n']
  | '\r' => ['\\', 'r']
  | '\x00' => ['\\', '0']
  | c =>
    if isShown c then [c]
    else ['\\', 'u', '\x7b'] ++ Nat.toDigits 16 c.toNat ++ ['\x7d']

/-- A text between double quotes. -/
def quoted (s : String) : String :=
  String.ofList ('"' :: s.toList.flatMap escaped ++ ['"'])

/-- A list of texts, each quoted. -/
def quotedList (xs : List String) : String :=
  "[" ++ ", ".intercalate (xs.map quoted) ++ "]"

/-- A name, and the parts of what it stands for, each with a name of its own. -/
def inParts (name : String) (parts : List (String × String)) : String :=
  name ++ " \x7b " ++ ", ".intercalate (parts.map fun part => part.1 ++ ": " ++ part.2) ++ " \x7d"

end Orchestra.Text
