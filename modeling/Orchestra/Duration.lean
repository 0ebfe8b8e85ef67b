/-!
# Durations

A `Duration` is a number of seconds and a number of nanoseconds below one second.

* `Duration.text` — its text in the largest of s, ms, µs and ns that is at least one;
* `Duration.limit?` — a configured duration as a limit, where zero means that there is none;
* `Duration.ceilMillis` — whole milliseconds, rounded up: what a clock that ticks in milliseconds
  makes of it.
-/

namespace Orchestra

/-- A span of time: whole seconds and the nanoseconds beyond them. -/
structure Duration where
  seconds : Nat
  nanos : Nat
  deriving DecidableEq, Repr, Inhabited

namespace Duration

/-- No time at all. -/
def zero : Duration := ⟨0, 0⟩

/-- A duration of whole seconds. -/
def ofSeconds (n : Nat) : Duration := ⟨n, 0⟩

/-- A duration of whole milliseconds. -/
def ofMillis (n : Nat) : Duration := ⟨n / 1000, n % 1000 * 1000000⟩

/-- All of the duration in nanoseconds. -/
def toNanos (d : Duration) : Nat := d.seconds * 1000000000 + d.nanos

/-- Whole milliseconds, rounded up. -/
def ceilMillis (d : Duration) : Nat := (d.toNanos + 999999) / 1000000

/-- A configured duration as a limit: zero stands for no limit. -/
def limit? (d : Duration) : Option Duration := if d = zero then none else some d

/-- The digits of `n` in `width` places, with leading zeros. -/
def padded (width n : Nat) : List Char :=
  let digits := Nat.toDigits 10 n
  List.replicate (width - digits.length) '0' ++ digits

/-- A whole number and a fraction of `places` decimal places, without trailing zeros. -/
def decimal (whole fraction places : Nat) : List Char :=
  let digits := (((padded places fraction).reverse).dropWhile (· == '0')).reverse
  Nat.toDigits 10 whole ++ (if digits.isEmpty then [] else '.' :: digits)

/-- The text of a duration: its whole part in the largest unit that is at least one, then the
fraction without trailing zeros, then the unit. -/
def text (d : Duration) : String :=
  let chars :=
    if 0 < d.seconds then decimal d.seconds d.nanos 9 ++ ['s']
    else if 1000000 ≤ d.nanos then decimal (d.nanos / 1000000) (d.nanos % 1000000) 6 ++ ['m', 's']
    else if 1000 ≤ d.nanos then decimal (d.nanos / 1000) (d.nanos % 1000) 3 ++ ['µ', 's']
    else decimal d.nanos 0 0 ++ ['n', 's']
  String.ofList chars

theorem limit?_zero : limit? zero = none := rfl

theorem limit?_eq_some_iff {d e : Duration} : d.limit? = some e ↔ d ≠ zero ∧ d = e := by
  unfold limit?
  split <;> simp_all

end Duration

end Orchestra
