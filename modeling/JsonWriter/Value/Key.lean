import JsonWriter.Value.Basic

/-!
Keys: which values can be one, when two are the same, and things kept in order under distinct keys.
A key that is already there keeps its place and takes the new thing.
-/

namespace JsonWriter

namespace Value

/-- Values by number, whether truth value, whole or floating. -/
def sameNumber : Value → Value → Bool
  | float x, float y => decide (x.Equals y)
  | float x, v => v.int?.elim false fun n => decide (x.EqualsInt n)
  | v, float y => v.int?.elim false fun n => decide (y.EqualsInt n)
  | v, w => v.int?.isSome && v.int? == w.int?

/-- The bytes that a value is, of whatever kind. -/
def data? (v : Value) : Option (List UInt8) :=
  match v.content with
  | binary _ data | memory data => some data
  | _ => none

/-- Values without parts: numbers by value, texts by content, bytes by content, types by name. -/
def sameScalar (v w : Value) : Bool :=
  match v.content, w.content with
  | null, null => true
  | type a, type b => a == b
  | a, b =>
    sameNumber a b || (a.text?.isSome && a.text? == b.text?) ||
      (a.data?.isSome && a.data? == b.data?)

mutual

/-- Two keys are one if they are equal or identical. Objects and NaN are equal to nothing. -/
def sameKey : Value → Value → Bool
  | own i v, w => w.identity? == some i || sameKey v w
  | derived v, w => sameKey v w
  | sequence .tuple vs, w =>
    match w.content with
    | sequence .tuple ws => sameKeys vs ws
    | _ => false
  | v, w => sameScalar v w
termination_by structural v => v

def sameKeys : List Value → List Value → Bool
  | [], [] => true
  | v :: vs, w :: ws => sameKey v w && sameKeys vs ws
  | _, _ => false
termination_by structural vs => vs

end

mutual

/-- The name of the type that keeps a value from being a key, if one does. -/
def unhashable? : Value → Option Text
  | sequence .tuple items => unhashableItem? items
  | sequence .list _ => some (text "list")
  | mapping kind _ =>
    some (match kind with
      | .dictionary => text "dict"
      | .view => text "mappingproxy"
      | .pairs => text "PairList")
  | selfList _ | outer _ => some (text "list")
  | selfDictionary _ => some (text "dict")
  | binary .byteArray _ => some (text "bytearray")
  | generator _ => some (text "GeneratorState")
  | derived base =>
    match base.content with
    | sequence .list _ | mapping _ _ | binary .byteArray _ => some (text "Sub")
    | _ => unhashable? base
  | own _ v => unhashable? v
  | _ => none
termination_by structural v => v

def unhashableItem? : List Value → Option Text
  | [] => none
  | v :: rest =>
    match unhashable? v with
    | some kind => some kind
    | none => unhashableItem? rest
termination_by structural vs => vs

end

end Value

namespace Keyed

variable {α : Type}

def find? (key : Value) (es : Keyed α) : Option α :=
  (List.find? (fun e => e.1.sameKey key) es).map (·.2)

/-- The things with one put under a key. -/
def insert (key : Value) (a : α) : Keyed α → Keyed α
  | [] => [(key, a)]
  | (k, b) :: rest => if k.sameKey key then (k, a) :: rest else (k, b) :: insert key a rest

/-- The things with others put over them in order. -/
def insertAll (es news : Keyed α) : Keyed α := news.foldl (fun es e => es.insert e.1 e.2) es

/-- The things with others put over them in order, or the type of the first key that cannot be
one. -/
def dictionary? : Keyed α → Keyed α → Except Text (Keyed α)
  | es, [] => .ok es
  | es, (k, a) :: rest =>
    match k.unhashable? with
    | some kind => .error kind
    | none => dictionary? (es.insert k a) rest

end Keyed

end JsonWriter
