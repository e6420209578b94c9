import JsonWriter.Value.Basic

/-!
Adding, ordering and repeating values of any type, and the fault where a type does not allow it.
-/

namespace JsonWriter.Value

/-- The value takes part in an order as this type: a view as what it is a view of. -/
def orderedKind (v : Value) : Text :=
  match v.content with
  | mapping .view _ => text "dict"
  | _ => v.kind

/-- The value as what a number may exceed. A view is asked itself, with the sign turned round. -/
def bound (x : Number) (v : Value) : Except Fault Number :=
  match v.number? with
  | some y => .ok y
  | none =>
    match v.content with
    | mapping .view _ => .error (.type (.notOrdered (text "<") v.orderedKind x.value.kind))
    | _ => .error (.type (.notOrdered (text ">") x.value.kind v.kind))

/-- The value exceeds zero. -/
def isPositive (v : Value) : Except Fault Bool :=
  match v.number? with
  | some x => .ok (x.exceeds (.whole 0))
  | none => .error (.type (.notOrdered (text ">") v.orderedKind (text "int")))

/-- Why a value that is no number is not compared with zero below it. -/
def notAtLeastZero (v : Value) : Fault :=
  .type (match v.content with
    | mapping .view _ => .notOrdered (text ">=") v.orderedKind (text "int")
    | _ => .notOrdered (text "<=") (text "int") v.kind)

/-- Why nothing of a type can be added to the value. -/
def notAddable (v : Value) (other : Text) : Fault :=
  .type (match v.content with
    | str _ | setting _ => .notConcatenable (text "str") other
    | sequence .list _ | selfList _ => .notConcatenable (text "list") other
    | sequence .tuple _ => .notConcatenable (text "tuple") other
    | binary _ _ => .notExtensible v.kind other
    | _ => .noOperation (text "+") v.kind other)

/-- The value and one more. -/
def succ (v : Value) : Except Fault Number :=
  match v.number? with
  | some x => .ok x.succ
  | none => .error (v.notAddable (text "int"))

/-- A total with the value added to it. -/
def addTo (total : Number) (v : Value) : Except Fault Number :=
  match v.number? with
  | none => .error (.type (.noOperation (text "+=") total.value.kind v.kind))
  | some x =>
    match total.add? x with
    | some sum => .ok sum
    | none => .error (.overflow .floating)

/-- The text of a value that other text is added to. -/
def textBefore (v : Value) : Except Fault Text :=
  match v.text? with
  | some t => .ok t
  | none => .error (v.notAddable (text "str"))

/-- The text of a value that is added to other text. -/
def textAfter (v : Value) : Except Fault Text :=
  match v.text? with
  | some t => .ok t
  | none => .error (.type (.notConcatenable (text "str") v.kind))

/-! ## Repeating -/

/-- How often something is repeated: not at all for a negative number. -/
def repetitions (n : Int) : Except Fault Nat :=
  if n < -0x8000000000000000 ∨ 0x8000000000000000 ≤ n then .error (.overflow (.count (text "int")))
  else .ok n.toNat

/-- What is that long may be repeated so often, unless the whole is too long. -/
def checkLength (fault : OverflowFault) (length times : Nat) : Except Fault Unit :=
  if length * times < 0x8000000000000000 then .ok () else .error (.overflow fault)

/-- A text, list, tuple or bytes so many times over; none for a value of another type. -/
def repeater? (v : Value) : Option (Nat → Except Fault Value) :=
  match v.text?, v.content, v.node with
  | some t, _, _ => some fun times =>
    (checkLength .repeatedText t.length times).map fun () => str (copies t times)
  | none, binary .bytes data, _ => some fun times =>
    (checkLength .repeatedBytes data.length times).map fun () => binary .bytes (copies data times)
  | none, binary .byteArray data, _ => some fun times => .ok (binary .byteArray (copies data times))
  | none, sequence kind items, _ => some fun times => .ok (sequence kind (copies items times))
  | none, selfList _, .array items => some fun times => .ok (list (copies items times))
  | none, _, _ => none

/-- The value times a number. -/
def times (v : Value) (n : Number) : Except Fault Value :=
  match v.number?, v.repeater?, n.whole? with
  | some x, _, _ =>
    match x.multiply? n with
    | some product => .ok product.value
    | none => .error (.overflow .floating)
  | none, some copiesOf, some whole => (repetitions whole).bind copiesOf
  | none, some _, none => .error (.type (.notCount n.value.kind))
  | none, none, _ => .error (.type (.noOperation (text "*") v.kind n.value.kind))

end JsonWriter.Value
