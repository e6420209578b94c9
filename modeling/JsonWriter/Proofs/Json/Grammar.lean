import JsonWriter.Decimal.Numeral

/-!
# The grammar of JSON

Which texts are JSON values and what they stand for: literal names, numbers, strings, arrays and
objects, with blanks between their parts. The names of numbers that are not finite count as values
where that is asked for.
-/

namespace JsonWriter

/-- What a JSON text stands for. A number without fraction and exponent is a whole one. Objects keep
all of their members, in order. -/
inductive Json
  | null
  | bool (b : Bool)
  | int (n : Int)
  | float (x : Binary64)
  | string (t : Text)
  | array (items : List Json)
  | object (members : List (Text × Json))

namespace Json

/-- Space, tab, line feed or carriage return. -/
def IsBlank (c : CodePoint) : Prop := c.val = 0x20 ∨ c.val = 0x09 ∨ c.val = 0x0A ∨ c.val = 0x0D

instance (c : CodePoint) : Decidable (IsBlank c) := inferInstanceAs (Decidable (_ ∨ _))

abbrev AllBlank (t : Text) : Prop := ∀ c ∈ t, IsBlank c

/-! ## Numbers -/

def IsDigit (c : CodePoint) : Prop := 0x30 ≤ c.val ∧ c.val ≤ 0x39

instance (c : CodePoint) : Decidable (IsDigit c) := inferInstanceAs (Decidable (_ ∧ _))

abbrev AllDigits (t : Text) : Prop := ∀ c ∈ t, IsDigit c

/-- The number that digits stand for. -/
def ofDigits (t : Text) : Nat := Numeral.ofDigits (t.map fun c => c.val - 0x30)

/-- The exponent of a number: its mark, a minus or a plus if one is there, and digits. -/
structure Exponent where
  capital : Bool
  minus? : Option Bool
  digits : Text
deriving DecidableEq

namespace Exponent

def sign (minus : Bool) : CodePoint := .ofChar (if minus then '-' else '+')

def text (e : Exponent) : Text :=
  .ofChar (if e.capital then 'E' else 'e') :: (e.minus?.map sign).toList ++ e.digits

def WellFormed (e : Exponent) : Prop := e.digits ≠ [] ∧ AllDigits e.digits

instance (e : Exponent) : Decidable e.WellFormed := inferInstanceAs (Decidable (_ ∧ _))

def value (e : Exponent) : Int := Numeral.withSign (e.minus?.getD false) (ofDigits e.digits)

end Exponent

/-- The parts of a number. Without a fraction there is no point either. -/
structure Parts where
  negative : Bool
  whole : Text
  fraction : Text
  exponent? : Option Exponent
deriving DecidableEq

namespace Parts

def unsigned (p : Parts) : Text :=
  p.whole ++ (if p.fraction = [] then [] else .ofChar '.' :: p.fraction) ++
    (p.exponent?.map Exponent.text).getD []

def text (p : Parts) : Text := (if p.negative then [.ofChar '-'] else []) ++ p.unsigned

/-- No zero leads other digits of the whole part. -/
def WellFormed (p : Parts) : Prop :=
  p.whole ≠ [] ∧ AllDigits p.whole ∧ (p.whole.head? = some (.ofChar '0') → p.whole.length = 1) ∧
    AllDigits p.fraction ∧ ∀ e ∈ p.exponent?, e.WellFormed

instance (p : Parts) : Decidable p.WellFormed :=
  inferInstanceAs (Decidable (_ ∧ _ ∧ (_ → _) ∧ _ ∧ _))

/-- Up to its sign the number is its significand times ten to its power. -/
def significand (p : Parts) : Nat := ofDigits (p.whole ++ p.fraction)

def power (p : Parts) : Int := (p.exponent?.map Exponent.value).getD 0 - p.fraction.length

/-- A whole number as it is, any other one as the nearest floating one. -/
def value (p : Parts) : Json :=
  if p.fraction = [] ∧ p.exponent? = none then .int (Numeral.withSign p.negative (ofDigits p.whole))
  else .float (Numeral.nearest p.negative p.significand p.power)

end Parts

/-! ## Strings -/

def quote : CodePoint := .ofChar '"'

def backslash : CodePoint := .ofChar '\\'

/-- The character stands for itself in a string. -/
def IsPlain (c : CodePoint) : Prop := 0x20 ≤ c.val ∧ c ≠ quote ∧ c ≠ backslash

instance (c : CodePoint) : Decidable (IsPlain c) := inferInstanceAs (Decidable (_ ∧ _ ∧ _))

/-- What the letter after a backslash stands for. -/
def unescape? (letter : CodePoint) : Option CodePoint :=
  match letter.val with
  | 0x22 => some quote
  | 0x5C => some backslash
  | 0x2F => some (.ofChar '/')
  | 0x62 => some (.ofNat 0x08)
  | 0x66 => some (.ofNat 0x0C)
  | 0x6E => some (.ofNat 0x0A)
  | 0x72 => some (.ofNat 0x0D)
  | 0x74 => some (.ofNat 0x09)
  | _ => none

/-- The value of a digit to base 16. -/
def hexValue? (c : CodePoint) : Option Nat :=
  if 0x30 ≤ c.val ∧ c.val ≤ 0x39 then some (c.val - 0x30)
  else if 0x41 ≤ c.val ∧ c.val ≤ 0x46 then some (c.val - 0x37)
  else if 0x61 ≤ c.val ∧ c.val ≤ 0x66 then some (c.val - 0x57)
  else none

/-- The code point, maybe a surrogate, that four digits to base 16 stand for. -/
def unit? (a b c d : CodePoint) : Option CodePoint := do
  let a ← hexValue? a
  let b ← hexValue? b
  let c ← hexValue? c
  let d ← hexValue? d
  return .ofNat (((a * 0x10 + b) * 0x10 + c) * 0x10 + d)

/-- A body of a string and its code points, surrogates on their own. -/
inductive SpellsBody : Text → Text → Prop
  | nil : SpellsBody [] []
  | plain {c : CodePoint} {body points : Text} (hc : IsPlain c) (h : SpellsBody body points) :
    SpellsBody (c :: body) (c :: points)
  | short {letter c : CodePoint} {body points : Text} (hc : unescape? letter = some c)
    (h : SpellsBody body points) : SpellsBody (backslash :: letter :: body) (c :: points)
  | unit {w x y z c : CodePoint} {body points : Text} (hc : unit? w x y z = some c)
    (h : SpellsBody body points) :
    SpellsBody (backslash :: .ofChar 'u' :: w :: x :: y :: z :: body) (c :: points)

/-- The code points with each pair of surrogates made into the character it stands for. -/
def joinPairs : Text → Text
  | high :: low :: rest =>
    if 0xD800 ≤ high.val ∧ high.val < 0xDC00 ∧ 0xDC00 ≤ low.val ∧ low.val < 0xE000 then
      .ofNat (0x10000 + (high.val - 0xD800) * 0x400 + (low.val - 0xDC00)) :: joinPairs rest
    else high :: joinPairs (low :: rest)
  | t => t

/-- A string in its quotes and the text that it stands for. -/
inductive SpellsString : Text → Text → Prop
  | intro {body points : Text} (h : SpellsBody body points) :
    SpellsString (quote :: body ++ [quote]) (joinPairs points)

/-- A string with blanks around it. -/
inductive SpellsName : Text → Text → Prop
  | intro {before t after content : Text} (hb : AllBlank before) (h : SpellsString t content)
    (ha : AllBlank after) : SpellsName (before ++ t ++ after) content

/-! ## Values -/

mutual

/-- A JSON value and what it stands for. -/
inductive Spells (nan : Bool) : Text → Json → Prop
  | null : Spells nan (text "null") .null
  | bool (b : Bool) : Spells nan (text (if b then "true" else "false")) (.bool b)
  | number {p : Parts} (h : p.WellFormed) : Spells nan p.text p.value
  | nan (h : nan = true) : Spells nan (text "NaN") (.float .nan)
  | infinity (negative : Bool) (h : nan = true) :
    Spells nan (text (if negative then "-Infinity" else "Infinity")) (.float (.infinity negative))
  | string {t content : Text} (h : SpellsString t content) : Spells nan t (.string content)
  | emptyArray {blank : Text} (hb : AllBlank blank) :
    Spells nan (.ofChar '[' :: blank ++ [.ofChar ']']) (.array [])
  | array {t : Text} {items : List Json} (h : SpellsItems nan t items) :
    Spells nan (.ofChar '[' :: t ++ [.ofChar ']']) (.array items)
  | emptyObject {blank : Text} (hb : AllBlank blank) :
    Spells nan (.ofChar '\x7b' :: blank ++ [.ofChar '\x7d']) (.object [])
  | object {t : Text} {members : List (Text × Json)} (h : SpellsMembers nan t members) :
    Spells nan (.ofChar '\x7b' :: t ++ [.ofChar '\x7d']) (.object members)

/-- A JSON text: one value with blanks around it. -/
inductive SpellsText (nan : Bool) : Text → Json → Prop
  | intro {before t after : Text} {j : Json} (hb : AllBlank before) (h : Spells nan t j)
    (ha : AllBlank after) : SpellsText nan (before ++ t ++ after) j

/-- One value or more, with commas between. -/
inductive SpellsItems (nan : Bool) : Text → List Json → Prop
  | last {t : Text} {j : Json} (h : SpellsText nan t j) : SpellsItems nan t [j]
  | more {t u : Text} {j : Json} {items : List Json} (h : SpellsText nan t j)
    (hrest : SpellsItems nan u items) : SpellsItems nan (t ++ .ofChar ',' :: u) (j :: items)

/-- One member or more, a name and a value with a colon between, with commas between members. -/
inductive SpellsMembers (nan : Bool) : Text → List (Text × Json) → Prop
  | last {name key t : Text} {j : Json} (hkey : SpellsName name key) (h : SpellsText nan t j) :
    SpellsMembers nan (name ++ .ofChar ':' :: t) [(key, j)]
  | more {name key t u : Text} {j : Json} {members : List (Text × Json)}
    (hkey : SpellsName name key) (h : SpellsText nan t j) (hrest : SpellsMembers nan u members) :
    SpellsMembers nan (name ++ .ofChar ':' :: t ++ .ofChar ',' :: u) ((key, j) :: members)

end

end Json

end JsonWriter
