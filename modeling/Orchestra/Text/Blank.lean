/-!
# Blanks

`isBlank` tells the characters that only separate others: the blank, the tabulators and line ends,
and the wider and narrower blanks of other scripts.  `trim` takes them off both ends of a text.
-/

namespace Orchestra.Text

/-- Code points of blanks. -/
def blanks : List (Nat × Nat) :=
  [(0x09, 0x0d), (0x20, 0x20), (0x85, 0x85), (0xa0, 0xa0), (0x1680, 0x1680), (0x2000, 0x200a),
    (0x2028, 0x2029), (0x202f, 0x202f), (0x205f, 0x205f), (0x3000, 0x3000)]

/-- Whether a character is a blank. -/
def isBlank (c : Char) : Bool := blanks.any fun r => r.1 ≤ c.toNat && c.toNat ≤ r.2

/-- The text without the blanks at its ends. -/
def trim (s : String) : String :=
  let front := s.toList.dropWhile isBlank
  String.ofList (front.reverse.dropWhile isBlank).reverse

end Orchestra.Text
