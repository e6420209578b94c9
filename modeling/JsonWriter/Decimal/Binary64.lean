/-!
Floating-point numbers of 64 bits as exact dyadic numbers, rounding of a quotient to the nearest of
them, addition and multiplication.
-/

namespace JsonWriter

/-- A binary floating-point number, given by its interchange format. -/
structure Binary64 where
  bits : UInt64
deriving DecidableEq

namespace Binary64

/-- The weight of the sign bit. -/
def signWeight : Nat := 0x8000000000000000

/-- The weight of the lowest bit of the exponent, and of the leading bit of a significand. -/
def leadingWeight : Nat := 0x10000000000000

def negative (x : Binary64) : Bool := x.bits.toNat / signWeight == 1

def exponentField (x : Binary64) : Nat := x.bits.toNat / leadingWeight % 0x800

def fraction (x : Binary64) : Nat := x.bits.toNat % leadingWeight

def IsFinite (x : Binary64) : Prop := x.exponentField ≠ 0x7FF

instance (x : Binary64) : Decidable x.IsFinite := inferInstanceAs (Decidable (_ ≠ _))

def IsNan (x : Binary64) : Prop := x.exponentField = 0x7FF ∧ x.fraction ≠ 0

instance (x : Binary64) : Decidable x.IsNan := inferInstanceAs (Decidable (_ ∧ _))

/-- A finite number is its significand times two to its exponent, up to sign. -/
def significand (x : Binary64) : Nat :=
  if x.exponentField = 0 then x.fraction else leadingWeight + x.fraction

def exponent (x : Binary64) : Int :=
  if x.exponentField = 0 then -1074 else (x.exponentField : Int) - 1075

/-- A finite number is equal to a whole one. -/
def EqualsInt (x : Binary64) (n : Int) : Prop :=
  x.IsFinite ∧ (n ≠ 0 → x.negative = decide (n < 0)) ∧
    x.significand <<< x.exponent.toNat = n.natAbs <<< (-x.exponent).toNat

instance (x : Binary64) (n : Int) : Decidable (x.EqualsInt n) :=
  inferInstanceAs (Decidable (_ ∧ _ ∧ _))

/-- Both numbers are NaN-free and equal in value, so the two zeros agree. -/
def Equals (x y : Binary64) : Prop :=
  ¬ x.IsNan ∧ (x = y ∨ (x.IsFinite ∧ y.IsFinite ∧ x.significand = 0 ∧ y.significand = 0))

instance (x y : Binary64) : Decidable (x.Equals y) :=
  inferInstanceAs (Decidable (_ ∧ (_ ∨ _)))

def IsZero (x : Binary64) : Prop := x.IsFinite ∧ x.significand = 0

instance (x : Binary64) : Decidable x.IsZero := inferInstanceAs (Decidable (_ ∧ _))

/-- The whole number nearest to a quotient, a half going to the even neighbour. -/
def roundQuotient (num den : Nat) : Nat :=
  let down := num / den
  let twice := 2 * (num % den)
  if twice < den then down
  else if den < twice then down + 1
  else down + down % 2

/-- The exponent at which a positive quotient has a significand of 53 bits, or the least one. -/
def quotientExponent (num den : Nat) : Int :=
  let guess : Int := (num.log2 : Int) - den.log2 - 52
  let fits := den <<< (guess + 52).toNat ≤ num <<< (-(guess + 52)).toNat
  max (if fits then guess else guess - 1) (-1074)

/-- The bits of the number nearest to a quotient with a positive divisor, ties to even; none when
it is past the largest finite number. -/
def ofQuotient? (negative : Bool) (num den : Nat) : Option Binary64 :=
  let sign := if negative then signWeight else 0
  if num = 0 then some ⟨.ofNat sign⟩
  else
    let q := quotientExponent num den
    let m := roundQuotient (num <<< (-q).toNat) (den <<< q.toNat)
    let magnitude := (q + 1074).toNat * leadingWeight + m
    if magnitude < 0x7FF * leadingWeight then some ⟨.ofNat (sign + magnitude)⟩ else none

/-- The infinity of a sign. -/
def infinity (negative : Bool) : Binary64 :=
  ⟨.ofNat ((if negative then signWeight else 0) + 0x7FF * leadingWeight)⟩

def nan : Binary64 := ⟨.ofNat (0x7FF * leadingWeight + leadingWeight / 2)⟩

/-- The numerator of a finite number over two to its `scale`. -/
def numerator (x : Binary64) : Int :=
  let n : Nat := x.significand <<< x.exponent.toNat
  if x.negative then -n else n

def scale (x : Binary64) : Nat := (-x.exponent).toNat

/-- The greatest whole number that a finite number is not less than. -/
def floor (x : Binary64) : Int := x.numerator / ((1 <<< x.scale : Nat) : Int)

/-- The number nearest to a whole one; none when it is past the largest finite number. -/
def ofInt? (n : Int) : Option Binary64 := ofQuotient? (n < 0) n.natAbs 1

/-- The nearest number to the sum. Infinities of opposite sign have none, and a sum of zero is
negative only if both numbers are. -/
def add (x y : Binary64) : Binary64 :=
  if x.IsNan ∨ y.IsNan then nan
  else if ¬ x.IsFinite then
    if ¬ y.IsFinite ∧ x.negative ≠ y.negative then nan else x
  else if ¬ y.IsFinite then y
  else
    let sum := x.numerator * ((1 <<< y.scale : Nat) : Int) + y.numerator * ((1 <<< x.scale : Nat) : Int)
    let negative := if sum = 0 then x.negative && y.negative else decide (sum < 0)
    (ofQuotient? negative sum.natAbs (1 <<< (x.scale + y.scale))).getD (infinity negative)

/-- The nearest number to the product. An infinity times zero has none. -/
def multiply (x y : Binary64) : Binary64 :=
  let negative := x.negative != y.negative
  if x.IsNan ∨ y.IsNan then nan
  else if ¬ x.IsFinite ∨ ¬ y.IsFinite then
    if x.IsZero ∨ y.IsZero then nan else infinity negative
  else
    let product := x.numerator.natAbs * y.numerator.natAbs
    (ofQuotient? negative product (1 <<< (x.scale + y.scale))).getD (infinity negative)

/-- The whole number next to a finite one on the side of zero. -/
def truncate (x : Binary64) : Int := x.numerator.tdiv ((1 <<< x.scale : Nat) : Int)

/-- The nearest number to the quotient by a positive whole one. -/
def divide (x : Binary64) (n : Nat) : Binary64 :=
  if ¬ x.IsFinite then x
  else (ofQuotient? x.negative x.numerator.natAbs (n <<< x.scale)).getD x

end Binary64

end JsonWriter
