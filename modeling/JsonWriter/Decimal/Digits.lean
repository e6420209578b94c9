import JsonWriter.Text.Basic

/-!
Digits of whole numbers to base ten, and the longest number that is written at all.
-/

namespace JsonWriter.Decimal

def digit (n : Nat) : CodePoint := .ofNat (0x30 + n % 10)

/-- The digits of `n`, most significant first, before those already written. -/
def digitsOnto (n : Nat) (written : Text) : Text :=
  if n < 10 then digit n :: written else digitsOnto (n / 10) (digit n :: written)

/-- The digits of `n` without leading zeros, a single zero for zero. -/
def ofNat (n : Nat) : Text := digitsOnto n []

def ofInt (n : Int) : Text :=
  if n < 0 then .ofChar '-' :: ofNat n.natAbs else ofNat n.natAbs

/-- Ten to the `n`. -/
def tenTo (n : Nat) : Nat := Nat.pow 10 n

/-- The greatest number of digits that a whole number is written with. -/
def digitLimit : Nat := 4300

/-- The text of a number of at most `digitLimit` digits. -/
def ofInt? (n : Int) : Option Text :=
  if n.natAbs < tenTo digitLimit then some (ofInt n) else none

end JsonWriter.Decimal
