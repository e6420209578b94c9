import JsonWriter.Decimal.Binary64
import JsonWriter.Decimal.Digits

/-!
The shortest decimal that reads back as a given binary number, and how it is written out. A decimal
reads back if it lies between the midpoints to the two neighbours, a midpoint included if the
significand is even.
-/

namespace JsonWriter

/-- The number `significand * 10 ^ exponent`. -/
structure Decimal where
  significand : Nat
  exponent : Int
deriving DecidableEq

namespace Decimal.Shortest

/-- A power of ten that is no greater than two to the `t`. -/
def tenBelow (t : Int) : Int := if 0 ≤ t then 3 * t / 10 else t / 3

/-- A power of ten that is no less than two to the `t`. -/
def tenAbove (t : Int) : Int := -tenBelow (-t)

/-- The number `m * 2 ^ q` beside the decimal grid `10 ^ k`. A point `a` of the grid is
`a * point` and the number is `4 * m * quarter` in a common unit. -/
structure Grid where
  m : Nat
  q : Int
  k : Int

namespace Grid

def point (g : Grid) : Nat := tenTo g.k.toNat <<< (2 - g.q).toNat

def quarter (g : Grid) : Nat := tenTo (-g.k).toNat <<< (g.q - 2).toNat

/-- The neighbour below is nearer than the one above just past a power of two. -/
def lowerGap (g : Grid) : Nat := if g.m = Binary64.leadingWeight ∧ -1074 < g.q then 1 else 2

/-- The point `a` of the grid reads back as the number. -/
def Reads (g : Grid) (a : Nat) : Prop :=
  let low := (4 * g.m - g.lowerGap) * g.quarter
  let high := (4 * g.m + 2) * g.quarter
  if g.m % 2 = 0 then low ≤ a * g.point ∧ a * g.point ≤ high
  else low < a * g.point ∧ a * g.point < high

instance (g : Grid) (a : Nat) : Decidable (g.Reads a) := by unfold Reads; infer_instance

/-- The greatest point of the grid that does not exceed the number. -/
def below (g : Grid) : Nat := 4 * g.m * g.quarter / g.point

/-- Of the two points around the number the one that reads back, the nearer one if both do, the
even one if they are equally near. -/
def choose? (g : Grid) : Option Nat :=
  let a := g.below
  let twice := 2 * (4 * g.m * g.quarter)
  let middle := (2 * a + 1) * g.point
  if g.Reads a then
    if g.Reads (a + 1) then
      if twice < middle then some a
      else if middle < twice then some (a + 1)
      else some (a + a % 2)
    else some a
  else if g.Reads (a + 1) then some (a + 1)
  else none

end Grid

/-- The first grid, from `10 ^ k` on down, with a point that reads back. -/
def scan (m : Nat) (q : Int) : Nat → Int → Decimal
  | 0, k => ⟨(Grid.mk m q k).below, k⟩
  | steps + 1, k =>
    match (Grid.mk m q k).choose? with
    | some a => ⟨a, k⟩
    | none => scan m q steps (k - 1)

/-- The shortest decimal for `m * 2 ^ q`, with `m` positive. No coarser grid than the first one
holds a point that small, and the last one is finer than the gaps between binary numbers. -/
def digits (m : Nat) (q : Int) : Decimal :=
  let top := tenAbove (m.log2 + 1 + q)
  scan m q (top - tenBelow (q - 2) + 1).toNat top

end Decimal.Shortest

/-- How a decimal is laid out: positional for a leading digit at `10 ^ e` with
`lowest ≤ e < limit`, else with an exponent of at least `exponentDigits` digits. -/
structure FloatLayout where
  lowest : Int
  limit : Int
  exponentDigits : Nat

namespace FloatLayout

/-- Positional from `0.0001` to below `10 ^ 16`; exponents have two digits. -/
def standard : FloatLayout := ⟨-4, 16, 2⟩

def zeros (n : Int) : Text := List.replicate n.toNat (.ofChar '0')

def exponentText (l : FloatLayout) (e : Int) : Text :=
  let ds := Decimal.ofNat e.natAbs
  [.ofChar 'e', .ofChar (if e < 0 then '-' else '+')] ++
    zeros (l.exponentDigits - ds.length) ++ ds

/-- The digits of a decimal set out by the layout, always with a point or an exponent. -/
def write (l : FloatLayout) (d : Decimal) : Text :=
  let ds := Decimal.ofNat d.significand
  let e := d.exponent + ds.length - 1
  let point := CodePoint.ofChar '.'
  if l.lowest ≤ e ∧ e < l.limit then
    if e < 0 then text "0." ++ zeros (-e - 1) ++ ds
    else if ds.length ≤ e + 1 then ds ++ zeros (e + 1 - ds.length) ++ text ".0"
    else ds.take (e + 1).toNat ++ point :: ds.drop (e + 1).toNat
  else
    match ds with
    | [] => []
    | [d] => d :: l.exponentText e
    | d :: rest => d :: point :: rest ++ l.exponentText e

end FloatLayout

namespace Binary64

/-- The text of a finite number: the shortest decimal that reads back. -/
def finiteText (x : Binary64) : Text :=
  let magnitude :=
    if x.significand = 0 then text "0.0"
    else FloatLayout.standard.write (Decimal.Shortest.digits x.significand x.exponent)
  if x.negative then .ofChar '-' :: magnitude else magnitude

/-- The text of any number, outside JSON. -/
def shown (x : Binary64) : Text :=
  if x.IsFinite then x.finiteText
  else if x.IsNan then text "nan"
  else if x.negative then text "-inf"
  else text "inf"

end Binary64

end JsonWriter
