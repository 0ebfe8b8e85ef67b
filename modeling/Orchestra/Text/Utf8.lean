/-!
# Bytes as text

`Utf8.decode` reads bytes as characters of one to four bytes.

* `Utf8.lead?` — how many bytes a first byte announces, and what the second of them may be;
* `Utf8.Flaw` — where reading stops, and why: so many bytes that begin no character, or an end in
  the middle of one;
* `Lines.cut`, `Lines.read` — a stream of bytes as lines: each is cut after a line feed, which is
  dropped together with a carriage return before it; what follows the last line feed is a line too,
  unless it is empty.
-/

namespace Orchestra.Text

namespace Utf8

/-- Why bytes are no text. -/
structure Flaw where
  /-- How many bytes can be read before the flaw. -/
  index : Nat
  /-- How many bytes belong to no character; none if the bytes end too early. -/
  length : Option Nat
  deriving DecidableEq, Repr, Inhabited

/-- A flaw in words. -/
def Flaw.message (f : Flaw) : String :=
  match f.length with
  | some n => s!"invalid utf-8 sequence of {n} bytes from index {f.index}"
  | none => s!"incomplete utf-8 byte sequence from index {f.index}"

/-- How many bytes follow a first byte above `0x7f`, and the range of the second byte. -/
def lead? (b : Nat) : Option (Nat × Nat × Nat) :=
  if 0xc2 ≤ b ∧ b ≤ 0xdf then some (1, 0x80, 0xbf)
  else if b = 0xe0 then some (2, 0xa0, 0xbf)
  else if b = 0xed then some (2, 0x80, 0x9f)
  else if 0xe1 ≤ b ∧ b ≤ 0xef then some (2, 0x80, 0xbf)
  else if b = 0xf0 then some (3, 0x90, 0xbf)
  else if 0xf1 ≤ b ∧ b ≤ 0xf3 then some (3, 0x80, 0xbf)
  else if b = 0xf4 then some (3, 0x80, 0x8f)
  else none

/-- Whether a byte may stand third or fourth. -/
def isTail (b : Nat) : Bool := 0x80 ≤ b && b ≤ 0xbf

/-- The first character of bytes and how many bytes follow its first, or why there is none. -/
def first (bytes : List Nat) : Except (Option Nat) (Char × Nat) :=
  match bytes with
  | [] => .error none
  | a :: rest =>
    if a < 0x80 then .ok (Char.ofNat a, 0)
    else match lead? a with
      | none => .error (some 1)
      | some (more, low, high) => match rest with
        | [] => .error none
        | b :: rest =>
          if b < low ∨ high < b then .error (some 1)
          else if more = 1 then .ok (Char.ofNat (a % 0x20 * 0x40 + b % 0x40), 1)
          else match rest with
            | [] => .error none
            | c :: rest =>
              if !isTail c then .error (some 2)
              else if more = 2 then
                .ok (Char.ofNat (a % 0x10 * 0x1000 + b % 0x40 * 0x40 + c % 0x40), 2)
              else match rest with
                | [] => .error none
                | d :: _ =>
                  if !isTail d then .error (some 3)
                  else
                    .ok (Char.ofNat (a % 8 * 0x40000 + b % 0x40 * 0x1000 + c % 0x40 * 0x40
                      + d % 0x40), 3)

/-- The characters of bytes, of which `index` have been read. -/
def decodeFrom (index : Nat) (bytes : List Nat) : Except Flaw (List Char) :=
  if _h : bytes = [] then .ok []
  else match first bytes with
    | .error length => .error ⟨index, length⟩
    | .ok (c, more) => (decodeFrom (index + more + 1) (bytes.drop (more + 1))).map (c :: ·)
termination_by bytes.length
decreasing_by
  have := List.length_pos_iff.2 _h
  simp only [List.length_drop]
  omega

/-- The characters of bytes, or the first flaw in them. -/
def decode (bytes : List Nat) : Except Flaw (List Char) := decodeFrom 0 bytes

end Utf8

namespace Lines

/-- Cuts bytes after each line feed. -/
def cut : List Nat → List (List Nat)
  | [] => []
  | b :: rest =>
    if b = 10 then [b] :: cut rest
    else match cut rest with
      | [] => [[b]]
      | line :: others => (b :: line) :: others

/-- A line without the line feed at its end and a carriage return before that. -/
def withoutEnd (line : List Char) : List Char :=
  match line.reverse with
  | '\n' :: '\r' :: rest => rest.reverse
  | '\n' :: rest => rest.reverse
  | _ => line

/-- The lines of a stream of bytes. -/
def read (bytes : List Nat) : List (Except Utf8.Flaw String) :=
  (cut bytes).map fun line => (Utf8.decode line).map fun cs => String.ofList (withoutEnd cs)

end Lines

end Orchestra.Text
