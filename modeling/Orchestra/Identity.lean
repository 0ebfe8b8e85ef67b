/-!
# Identities and flags of modules

* `Identity` — a 128-bit identity, written as five groups of hexadecimal digits;
* `Identity.random` — the identity made of random bits, which says of itself that it is random;
* `Flags` — what a module reports of itself: whether it runs and whether it is healthy.
-/

namespace Orchestra

/-- A module's identity: a number below `2 ^ 128`. -/
structure Identity where
  value : Nat
  deriving DecidableEq, Repr, Inhabited

namespace Identity

/-- The hexadecimal digits of an identity, most significant first. -/
def digits (i : Identity) : List Char :=
  (List.range 32).map fun place => Nat.digitChar (i.value >>> (4 * (31 - place)) % 16)

/-- An identity in groups of 8, 4, 4, 4 and 12 digits. -/
def text (i : Identity) : String :=
  let group (start size : Nat) := (i.digits.drop start).take size
  String.ofList ("-".toList.intercalate [group 0 8, group 8 4, group 12 4, group 16 4, group 20 12])

/-- The version of an identity: its thirteenth digit. -/
def version (i : Identity) : Nat := i.value >>> 76 % 16

/-- The identity made of random bits: version 4, and the two bits that mark the standard layout. -/
def random (bits : Nat) : Identity :=
  let high := bits >>> 74 % 1 <<< 48
  let middle := bits >>> 62 % 1 <<< 12
  let low := bits % 1 <<< 62
  ⟨high <<< 80 + 4 <<< 76 + middle <<< 64 + 2 <<< 62 + low⟩

end Identity

/-- What a module reports of itself. -/
structure Flags where
  running : Bool := false
  healthy : Bool := true
  deriving DecidableEq, Repr, Inhabited

/-- A module's identity and its flags. -/
structure SelfReport where
  identity : Identity
  flags : Flags := {}
  deriving DecidableEq, Repr, Inhabited

namespace SelfReport

/-- The state of a new module with a given identity. -/
def withIdentity (i : Identity) : SelfReport := ⟨i, {}⟩

/-- The state of a new module whose identity is made of random bits. -/
def fresh (bits : Nat) : SelfReport := withIdentity (Identity.random bits)

def markRunning (s : SelfReport) (b : Bool) : SelfReport :=
  { s with flags := { s.flags with running := b } }

def markHealthy (s : SelfReport) (b : Bool) : SelfReport :=
  { s with flags := { s.flags with healthy := b } }

end SelfReport

end Orchestra
