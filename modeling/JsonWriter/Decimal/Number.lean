import JsonWriter.Decimal.Shortest

/-!
Numbers of three sorts side by side: truth values, whole numbers and floating ones. They compare
exactly, and a sum or product is floating as soon as one part is.
-/

namespace JsonWriter

inductive Number
  | truth (b : Bool)
  | whole (n : Int)
  | floating (x : Binary64)
deriving DecidableEq

namespace Number

/-- The whole number, where true is one and false is zero. -/
def whole? : Number → Option Int
  | truth b => some b.toNat
  | whole n => some n
  | floating _ => none

/-- A finite number as a numerator over two to a scale. -/
def dyadic? : Number → Option (Int × Nat)
  | truth b => some (b.toNat, 0)
  | whole n => some (n, 0)
  | floating x => if x.IsFinite then some (x.numerator, x.scale) else none

/-- The number is the infinity of that sign. -/
def IsInfinite (negative : Bool) : Number → Prop
  | floating x => x = Binary64.infinity negative
  | _ => False

instance (negative : Bool) : (x : Number) → Decidable (x.IsInfinite negative)
  | floating x => inferInstanceAs (Decidable (x = Binary64.infinity negative))
  | truth _ | whole _ => inferInstanceAs (Decidable False)

/-- The first number is greater, as NaN never is and nothing is than NaN. -/
def exceeds (x y : Number) : Bool :=
  match x.dyadic?, y.dyadic? with
  | some (a, k), some (b, l) => decide (b * ((1 <<< k : Nat) : Int) < a * ((1 <<< l : Nat) : Int))
  | some _, none => decide (y.IsInfinite true)
  | none, some _ => decide (x.IsInfinite false)
  | none, none => decide (x.IsInfinite false ∧ y.IsInfinite true)

def isNan : Number → Bool
  | floating x => decide x.IsNan
  | _ => false

def isZero : Number → Bool
  | truth b => !b
  | whole n => n == 0
  | floating x => decide x.IsZero

/-- The greatest whole number that a finite number is not less than. -/
def floor? : Number → Option Int
  | truth b => some b.toNat
  | whole n => some n
  | floating x => if x.IsFinite then some x.floor else none

/-- The nearest floating number, if there is one. -/
def binary64? : Number → Option Binary64
  | truth b => Binary64.ofInt? b.toNat
  | whole n => Binary64.ofInt? n
  | floating x => some x

/-- The sum; there is none when a whole number is too big to be added to a floating one. -/
def add? (x y : Number) : Option Number :=
  match x.whole?, y.whole? with
  | some m, some n => some (whole (m + n))
  | _, _ =>
    match x.binary64?, y.binary64? with
    | some a, some b => some (floating (a.add b))
    | _, _ => none

/-- The product; there is none when a whole number is too big to be multiplied by a floating one. -/
def multiply? (x y : Number) : Option Number :=
  match x.whole?, y.whole? with
  | some m, some n => some (whole (m * n))
  | _, _ =>
    match x.binary64?, y.binary64? with
    | some a, some b => some (floating (a.multiply b))
    | _, _ => none

/-- The number with a small whole one added, which a floating one rounds. -/
def shift (x : Number) (n : Int) : Number := (x.add? (whole n)).getD x

def succ (x : Number) : Number := x.shift 1

def pred (x : Number) : Number := x.shift (-1)

/-- The text of a number outside JSON. -/
def shown : Number → Text
  | truth b => text (if b then "True" else "False")
  | whole n => Decimal.ofInt n
  | floating x => x.shown

/-- The number is not too long to be written. -/
def IsShort : Number → Prop
  | whole n => (Decimal.ofInt? n).isSome
  | _ => True

instance : (x : Number) → Decidable x.IsShort
  | whole n => inferInstanceAs (Decidable ((Decimal.ofInt? n).isSome))
  | truth _ | floating _ => inferInstanceAs (Decidable True)

end Number

end JsonWriter
