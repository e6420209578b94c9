import JsonWriter.Session.Action
import JsonWriter.Value.Octets

/-!
Bytes carried by a tagged object, `json_class` naming their kind and `raw` holding one number a byte,
and bytes taken from other values.
-/

namespace JsonWriter.RawObject

/-- The tagged object for bytes. -/
def wrap (v : Value) : Except Fault Value :=
  match v.content with
  | .binary kind data => .ok (.dictionary (Value.rawEntries kind data))
  | _ => .error (.type (.notBinary v.kind))

def kind? (tag : Text) : Option BinaryKind :=
  if tag = text "bytes" then some .bytes
  else if tag = text "bytearray" then some .byteArray
  else none

/-- The bytes that the elements are, from the given index on; the first that is none is the
fault. -/
def bytes (index : Nat) : List Value → Action (List UInt8)
  | [] => return []
  | item :: rest => do
    match item.wholeNumber? with
    | none =>
      let shown ← Action.literal item
      Action.fail (.encoding (.rawNotInteger index shown))
    | some n =>
      if 0 ≤ n ∧ n < 0x100 then
        return .ofNat n.toNat :: (← bytes (index + 1) rest)
      else
        let shown ← Action.shown item
        Action.fail (.encoding (.rawOutOfRange index shown))

/-- The items of a list or tuple. -/
def items? (v : Value) : Option (List Value) :=
  match v.node with
  | .array items => some items
  | _ => none

/-- The bytes that a tagged object carries, of the kind expected if one is given. -/
def unwrap (v : Value) (expected : Option Value) : Action Value := do
  let some es := v.entries? | Action.fail (.encoding (.rawNotMapping v.kind))
  let tag := (es.last? (text "json_class")).getD .null
  let some kind := tag.text?.bind kind?
    | Action.fail (.encoding (.rawUnknownTag (← Action.literal tag)))
  if let some expected := expected then
    if expected.text? ≠ tag.text? then
      let expected ← Action.literal expected
      Action.fail (.encoding (.rawOtherTag expected (← Action.literal tag)))
  let some items := ((es.last? (text "raw")).getD .null |> items?)
    | Action.fail (.encoding .rawNotArray)
  return .binary kind (← bytes 0 items)

/-- The bytes that a value other than text stands for. -/
def bytesOf (v : Value) : Except Fault (List UInt8) :=
  if v.text?.isSome then .error (.type .escapedText) else v.octets .bytes

end JsonWriter.RawObject
