import JsonWriter.Value.Members

/-!
Bytes taken from values of any type.
-/

namespace JsonWriter

def BinaryKind.name : BinaryKind → Text
  | bytes => text "bytes"
  | byteArray => text "bytearray"

/-- What bytes of a kind are called where one of them is out of range. -/
def BinaryKind.item : BinaryKind → Text
  | bytes => text "bytes"
  | byteArray => text "byte"

namespace Value

/-- A byte from each value, which must be a number that fits in one. -/
def octetsOfNumbers (kind : BinaryKind) : List Value → Except Fault (List UInt8)
  | [] => .ok []
  | v :: rest =>
    match v.int? with
    | none => .error (.type (.notInteger v.kind))
    | some n =>
      if 0 ≤ n ∧ n < 0x100 then (octetsOfNumbers kind rest).map (.ofNat n.toNat :: ·)
      else .error (.value (.byteRange kind.item))

/-- The bytes that a value stands for: so many zeros for a number, else one byte for each number in
it. A text stands for bytes only in some encoding. -/
def octets (kind : BinaryKind) (v : Value) : Except Fault (List UInt8) :=
  match v.data?, v.text?, v.int? with
  | some data, _, _ => .ok data
  | none, some _, _ => .error (.type .noEncoding)
  | none, none, some n =>
    if n < -0x8000000000000000 ∨ 0x8000000000000000 ≤ n then .error (.overflow (.count v.kind))
    else if n < 0 then .error (.value .negativeCount)
    else .ok (List.replicate n.toNat 0)
  | none, none, none =>
    (v.members (.type (.notBytes v.kind kind.name))).bind (octetsOfNumbers kind)

end Value

end JsonWriter
