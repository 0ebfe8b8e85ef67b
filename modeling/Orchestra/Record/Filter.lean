import Orchestra.Record
import Orchestra.Text.Blank
import Orchestra.Text.Shown

/-!
# Which records are shown

A `Filter` is a list of directives, each a threshold for the records whose origin begins with a
given text, or for all records.

* `Filter.parse?` — directives between commas: a level, an origin, or `origin=level`;
* `Filter.shows` — the directive with the longest matching origin decides, the last of several;
  records that no directive is about are not shown;
* `Filter.ofSetting` — the filter of a setting that may be missing or unreadable.
-/

namespace Orchestra

/-- A threshold: records of this level and above are shown; without one, none are. -/
abbrev Threshold := Option Level

/-- A threshold for some origins. -/
structure Directive where
  /-- What the origin begins with; nothing for all records. -/
  origin : Option String
  threshold : Threshold
  deriving DecidableEq, Repr, Inhabited

/-- Which records are shown. -/
structure Filter where
  directives : List Directive
  deriving DecidableEq, Repr, Inhabited

namespace Filter

/-- A whole number: decimal digits, with a plus sign in front or without. -/
def wholeNumber? (s : List Char) : Option Nat :=
  let digits := match s with
    | '+' :: rest => rest
    | _ => s
  if digits.isEmpty || !digits.all Char.isDigit then none
  else some (digits.foldl (fun n c => 10 * n + (c.toNat - '0'.toNat)) 0)

/-- The threshold of a name, in small or capital letters, or of a number. -/
def threshold? (s : String) : Option Threshold :=
  match wholeNumber? s.toList with
  | some 0 => some none
  | some 1 => some (some .error)
  | some 2 => some (some .warn)
  | some 3 => some (some .info)
  | some 4 => some (some .debug)
  | some 5 => some (some .trace)
  | some _ => none
  | none =>
    match String.ofList (s.toList.map Char.toLower) with
    | "off" => some none
    | "error" => some (some .error)
    | "warn" => some (some .warn)
    | "info" => some (some .info)
    | "debug" => some (some .debug)
    | "trace" => some (some .trace)
    | _ => none

/-- Whether a directive may begin with a character: a letter or a digit, or one of three signs.
Beyond the first 128 characters all that are shown count as letters. -/
def isOpening (c : Char) : Bool :=
  c.isAlphanum || c = '-' || c = ':' || c = '_' || (0x80 ≤ c.toNat && Text.isShown c)

/-- One directive. -/
def directive? (text : String) : Option Directive :=
  let chars := (Text.trim text).toList
  let front := chars.takeWhile (· ≠ '=')
  match front with
  | [] => none
  | c :: _ =>
    if !isOpening c then none
    else
      let name := String.ofList front
      match chars.drop front.length with
      | [] => match threshold? name with
        | some t => some ⟨none, t⟩
        | none => some ⟨some name, some .trace⟩
      | [_] => some ⟨some name, some .trace⟩
      | _ :: level => (threshold? (String.ofList level)).map fun t => ⟨some name, t⟩

/-- Directives between commas.  Without any, only errors are shown. -/
def parse? (text : String) : Option Filter :=
  let parts := (text.splitOn ",").filter fun p => !p.isEmpty
  if parts.isEmpty then some ⟨[⟨none, some .error⟩]⟩
  else (parts.mapM directive?).map Filter.mk

/-- The filter of a setting: the level `info` if it is missing or cannot be read. -/
def ofSetting (setting : Option String) : Filter :=
  (setting.bind parse?).getD ⟨[⟨none, some .info⟩]⟩

/-- How closely a directive is about an origin; nothing if it is not. -/
def Directive.match? (origin : String) (d : Directive) : Option Nat :=
  match d.origin with
  | none => some 0
  | some o => if o.toList.isPrefixOf origin.toList then some (o.length + 1) else none

/-- The threshold for an origin. -/
def thresholdFor (f : Filter) (origin : String) : Threshold :=
  let best := f.directives.foldl
    (fun best d => match Directive.match? origin d, best with
      | none, best => best
      | some n, none => some (n, d.threshold)
      | some n, some (m, t) => if m ≤ n then some (n, d.threshold) else some (m, t))
    (none : Option (Nat × Threshold))
  (best.map Prod.snd).getD none

/-- Whether a record is shown. -/
def shows (f : Filter) (r : Record) : Bool :=
  match f.thresholdFor r.origin with
  | none => false
  | some level => level.rank ≤ r.level.rank

end Filter

end Orchestra
