import JsonWriter.Decimal.Binary64
import JsonWriter.Decimal.Digits

/-!
Numbers read from text. A numeral has digits of any script, an underscore at most between two of them,
a sign before it at most and any blanks around it. The tables follow version 14.0 of the Unicode
character database.
-/

namespace JsonWriter.Numeral

/-- The zeros of all scripts. After each of them come its other nine digits. -/
def zeros : List Nat :=
  [0x30, 0x660, 0x6F0, 0x7C0, 0x966, 0x9E6, 0xA66, 0xAE6, 0xB66, 0xBE6, 0xC66, 0xCE6, 0xD66, 0xDE6,
    0xE50, 0xED0, 0xF20, 0x1040, 0x1090, 0x17E0, 0x1810, 0x1946, 0x19D0, 0x1A80, 0x1A90, 0x1B50,
    0x1BB0, 0x1C40, 0x1C50, 0xA620, 0xA8D0, 0xA900, 0xA9D0, 0xA9F0, 0xAA50, 0xABF0, 0xFF10, 0x104A0,
    0x10D30, 0x11066, 0x110F0, 0x11136, 0x111D0, 0x112F0, 0x11450, 0x114D0, 0x11650, 0x116C0,
    0x11730, 0x118E0, 0x11950, 0x11C50, 0x11D50, 0x11DA0, 0x16A60, 0x16AC0, 0x16B50, 0x1D7CE,
    0x1D7D8, 0x1D7E2, 0x1D7EC, 0x1D7F6, 0x1E140, 0x1E2F0, 0x1E950, 0x1FBF0]

/-- The value of a digit. -/
def digit? (c : CodePoint) : Option Nat :=
  (zeros.find? fun z => z ≤ c.val && c.val < z + 10).map (c.val - ·)

/-- The blanks that may stand around a numeral, as closed ranges in ascending order. -/
def blankRanges : List (Nat × Nat) :=
  [(0x9, 0xD), (0x20, 0x20), (0x85, 0x85), (0xA0, 0xA0), (0x1680, 0x1680), (0x2000, 0x200A),
    (0x2028, 0x2029), (0x202F, 0x202F), (0x205F, 0x205F), (0x3000, 0x3000)]

def isBlank (c : CodePoint) : Bool := blankRanges.any fun r => r.1 ≤ c.val && c.val ≤ r.2

def dropBlanks (t : Text) : Text :=
  ((t.dropWhile isBlank).reverse.dropWhile isBlank).reverse

/-- The text without its underscores, if each stands between two digits. -/
def ungroup? (afterDigit : Bool) : Text → Option Text
  | [] => some []
  | c :: rest =>
    if c = .ofChar '_' then
      if afterDigit && rest.head?.any fun next => (digit? next).isSome then ungroup? false rest
      else none
    else (ungroup? (digit? c).isSome rest).map (c :: ·)

/-- Whether there is a minus in front, and the text after the sign, if there is one. -/
def splitSign : Text → Bool × Text
  | [] => (false, [])
  | c :: rest =>
    if c = .ofChar '-' then (true, rest)
    else if c = .ofChar '+' then (false, rest)
    else (false, c :: rest)

/-- The digits in front, and the rest. -/
def splitDigits : Text → List Nat × Text
  | [] => ([], [])
  | c :: rest =>
    match digit? c with
    | none => ([], c :: rest)
    | some d =>
      let (ds, rest) := splitDigits rest
      (d :: ds, rest)

/-- The digits of a text that has one at least and nothing else. -/
def digits? (t : Text) : Option (List Nat) :=
  match splitDigits t with
  | (d :: ds, []) => some (d :: ds)
  | _ => none

/-- The number with these digits, most significant first. -/
def ofDigits (ds : List Nat) : Nat := ds.foldl (fun n d => 10 * n + d) 0

def withSign (negative : Bool) (n : Nat) : Int := if negative then -n else n

/-- The sign and the digits of the numeral of a whole number. -/
def whole? (t : Text) : Option (Bool × List Nat) := do
  let (negative, t) := splitSign (← ungroup? false (dropBlanks t))
  return (negative, ← digits? t)

/-- The names of numbers that have no digits, in small letters. -/
def named? (name : Text) : Option (Bool → Binary64) :=
  if name = text "inf" ∨ name = text "infinity" then some Binary64.infinity
  else if name = text "nan" then some fun _ => Binary64.nan
  else none

/-- A capital letter as the small one. -/
def small (c : CodePoint) : CodePoint :=
  if 0x41 ≤ c.val ∧ c.val ≤ 0x5A then .ofNat (c.val + 0x20) else c

/-- The exponent to base ten that ends a numeral: zero if nothing is left. -/
def exponent? : Text → Option Int
  | [] => some 0
  | mark :: rest =>
    if small mark = CodePoint.ofChar 'e' then do
      let (negative, t) := splitSign rest
      return withSign negative (ofDigits (← digits? t))
    else none

/-- The floating-point number nearest to `significand * 10 ^ exponent`. Of one that is far out of range
no power is taken. -/
def nearest (negative : Bool) (significand : Nat) (exponent : Int) : Binary64 :=
  let magnitude := exponent + (Decimal.ofNat significand).length
  if significand = 0 ∨ magnitude < -400 then
    ⟨.ofNat (if negative then Binary64.signWeight else 0)⟩
  else if 400 < magnitude then Binary64.infinity negative
  else
    (Binary64.ofQuotient? negative (significand * Decimal.tenTo exponent.toNat)
      (Decimal.tenTo (-exponent).toNat)).getD (Binary64.infinity negative)

/-- The number of a numeral with a fraction and an exponent at most, after its sign. -/
def unsigned? (negative : Bool) (t : Text) : Option Binary64 := do
  let (whole, t) := splitDigits t
  let (fraction, t) :=
    match t with
    | [] => ([], [])
    | c :: rest => if c = CodePoint.ofChar '.' then splitDigits rest else ([], c :: rest)
  let exponent ← exponent? t
  if whole.isEmpty && fraction.isEmpty then none
  else some (nearest negative (ofDigits (whole ++ fraction)) (exponent - fraction.length))

/-- The floating-point number that a numeral or a name stands for. -/
def floating? (t : Text) : Option Binary64 := do
  let (negative, t) := splitSign (← ungroup? false (dropBlanks t))
  match named? (t.map small) with
  | some x => some (x negative)
  | none => unsigned? negative t

end JsonWriter.Numeral
