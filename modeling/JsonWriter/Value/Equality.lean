import JsonWriter.Value.Key

/-!
Equality of any two values. Identical values are equal, and mappings are equal whatever their order.
A list of pairs compares as the dictionary of its pairs, which fails when a key cannot be one; which
of two failures comes first depends on the side that leads a comparison.
-/

namespace JsonWriter

/-- Whether two values are equal, or the type of a key that keeps them from being compared. -/
abbrev Comparison := Except Text Bool

/-- Of two mappings the one of the higher precedence leads. -/
def MappingKind.precedence (kind : MappingKind) (isDerived : Bool) : Nat :=
  match kind, isDerived with
  | .pairs, _ => 3
  | .dictionary, true => 2
  | .view, _ => 1
  | .dictionary, false => 0

namespace Value

/-- The first of two sequences leads: a derived one, else the left one. -/
def sequenceLeads (first second swapped : Bool) : Bool :=
  if first = second then !swapped else first

/-- The first of two mappings leads: by precedence, else the left one, but of two views the right
one. -/
def mappingLeads (first second : MappingKind) (firstDerived secondDerived swapped : Bool) : Bool :=
  let p := first.precedence firstDerived
  let q := second.precedence secondDerived
  if p = q then (if first = .view then swapped else !swapped) else decide (q < p)

/-- Dictionaries compare under the keys of the one that leads, in their order. Here it is the first,
whose values are given by what they make of other ones. -/
def compareLeading (first : Keyed (Value → Comparison)) (second : Entries) : Comparison :=
  if first.length ≠ second.length then .ok false
  else first.allM fun e =>
    match second.find? e.1 with
    | none => .ok false
    | some w => e.2 w

/-- As `compareLeading`, where the second one leads. -/
def compareFollowing (first : Keyed (Value → Comparison)) (second : Entries) : Comparison :=
  if first.length ≠ second.length then .ok false
  else second.allM fun e =>
    match first.find? e.1 with
    | none => .ok false
    | some compare => compare e.2

mutual

/-- Equality of a value with another one. `same` compares generators by number, `swapped` says that
the value is the right side of the comparison, and `isDerived` that it is of a derived type. The parts
of the one that leads are on the left. -/
def compareIn (same : Nat → Nat → Comparison) (swapped isDerived : Bool) :
    Value → Value → Comparison
  | own i v, w =>
    if w.identity? = some i then .ok true else compareIn same swapped isDerived v w
  | derived v, w => compareIn same swapped true v w
  | sequence kind vs, w =>
    match w.content with
    | sequence kind' ws =>
      if kind ≠ kind' ∨ (kind = .list ∧ vs.length ≠ ws.length) then .ok false
      else compareItems same (!sequenceLeads isDerived w.isDerived swapped) vs ws
    | _ => .ok false
  | mapping kind es, w =>
    match w.content with
    | mapping kind' es' =>
      let leads := mappingLeads kind kind' isDerived w.isDerived swapped
      let first := comparers same (!leads) es
      if leads then do
        let first ← Keyed.dictionary? [] first
        let second ← Keyed.dictionary? [] es'
        compareLeading first second
      else do
        let second ← Keyed.dictionary? [] es'
        let first ← Keyed.dictionary? [] first
        compareFollowing first second
    | _ => .ok false
  | generator i, w =>
    match w with
    | generator j => if i = j then .ok true else if swapped then same j i else same i j
    | _ => .ok false
  | v, w => .ok (sameScalar v w)
termination_by structural v => v

/-- The items of two sequences, one after the other, to the end of either. -/
def compareItems (same : Nat → Nat → Comparison) (swapped : Bool) :
    List Value → List Value → Comparison
  | [], ws => .ok ws.isEmpty
  | _ :: _, [] => .ok false
  | v :: vs, w :: ws => do
    if ← compareIn same swapped false v w then compareItems same swapped vs ws else return false
termination_by structural vs => vs

/-- What the values of a mapping make of other ones. -/
def comparers (same : Nat → Nat → Comparison) (swapped : Bool) :
    List (Value × Value) → List (Value × (Value → Comparison))
  | [] => []
  | (k, v) :: rest =>
    (k, fun w => compareIn same swapped false v w) :: comparers same swapped rest
termination_by structural es => es

end

/-- Equality of values on the left and on the right. -/
def compare (same : Nat → Nat → Comparison) (left right : Value) : Comparison :=
  compareIn same false false left right

end Value

end JsonWriter
