import JsonWriter.Decimal.Numeral
import JsonWriter.Value.Mapping
import JsonWriter.Value.Octets
import JsonWriter.Value.Shown

/-!
Contents of native types made from values of any type.
-/

namespace JsonWriter.Value

/-! ## Numbers -/

/-- The text that a number is read from. Of bytes none but ASCII ones are part of a numeral. -/
def numeral? (v : Value) : Option Text :=
  match v.text?, v.data? with
  | some t, _ => some t
  | none, some data => some (data.map fun b => if b < 0x80 then .ofByte b else .ofNat 0xFFFD)
  | none, none => none

/-- The form for messages of a value without generators in it. -/
def aloneShown (v : Value) : Text := (v.literal? fun _ _ => none).getD []

/-- The form of what is not read as a whole number, of which so much is shown. Bytes of every kind
look the same. -/
def notWholeShown (v : Value) : Text :=
  match v.data? with
  | some data => (Quoted.ofBytes (data.take 200)).take 200
  | none => v.aloneShown.take 200

/-- The whole number made from a value, a fraction being cut off. -/
def toWhole (v : Value) : Except Fault Int :=
  match v.number?, v.numeral? with
  | some (.truth b), _ => .ok b.toNat
  | some (.whole n), _ => .ok n
  | some (.floating x), _ =>
    if x.IsFinite then .ok x.truncate
    else if x.IsNan then .error (.value .nanToInteger)
    else .error (.overflow .infinityToInteger)
  | none, some t =>
    match Numeral.whole? t with
    | none => .error (.value (.notWhole v.notWholeShown))
    | some (negative, ds) =>
      if Decimal.digitLimit < ds.length then .error (.value (.tooLongNumeral ds.length))
      else .ok (Numeral.withSign negative (Numeral.ofDigits ds))
  | none, none =>
    .error (.type (.notNumber (text "int") (text "a string, a bytes-like object") v.kind))

/-- The floating-point number made from a value. -/
def toFloating (v : Value) : Except Fault Binary64 :=
  match v.number?, v.numeral? with
  | some x, _ =>
    match x.binary64? with
    | some y => .ok y
    | none => .error (.overflow .floating)
  | none, some t =>
    match Numeral.floating? t with
    | some y => .ok y
    | none => .error (.value (.notFloating v.aloneShown))
  | none, none => .error (.type (.notNumber (text "float") (text "a string") v.kind))

/-! ## Containers -/

def toItems (v : Value) : Except Fault (List Value) := v.members (.type (.notIterable v.kind))

/-- A key and what is under it, as two members of a value. -/
def toPair (index : Nat) (v : Value) : Except Fault (Value × Value) := do
  match ← v.members (.type (.notPair index)) with
  | [k, w] => return (k, w)
  | ms => .error (.value (.pairLength index ms.length))

/-- Entries with those put over them that each value is, from the given index on. -/
def insertPairs (index : Nat) (es : Entries) : List Value → Except Fault Entries
  | [] => .ok es
  | v :: rest => do
    let (k, w) ← v.toPair index
    match k.unhashable? with
    | some kind => .error (.type (.unhashable kind))
    | none => insertPairs (index + 1) (es.insert k w) rest

/-- The entries of a mapping under keys that can be one. In a list of pairs each key is looked up, and
NaN is not found. -/
def toLookedUp (kind : MappingKind) (es : Entries) : Except Fault Entries :=
  let found := es.takeWhile fun e => decide (kind ≠ .pairs) || !e.1.number?.any Number.isNan
  match Keyed.dictionary? [] found, es.drop found.length with
  | .error name, _ => .error (.type (.unhashable name))
  | .ok entries, [] => .ok entries
  | .ok _, (k, _) :: _ => .error (.key (some k.aloneShown))

/-- The entries made from a mapping, or from anything that gives pairs. -/
def toEntries (v : Value) : Except Fault Entries :=
  match v.content with
  | mapping kind es => toLookedUp kind es
  | _ => do
    match v.entries? with
    | some es => return es
    | none => insertPairs 0 [] (← v.toItems)

end JsonWriter.Value
