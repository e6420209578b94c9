import JsonWriter.Session.Action
import JsonWriter.Value.Conversion
import JsonWriter.Value.Operator

/-!
Reading values: what a value as it is written down stands for in a session.
-/

namespace JsonWriter

/-- What the value holds does not tell it apart from others that hold the same. -/
def Value.isDistinct : Value → Bool
  | .float x => decide x.IsNan
  | .sequence _ _ | .mapping _ _ | .selfList _ | .selfDictionary _ | .object _ | .extension _ => true
  | _ => false

namespace Action

/-- The value with an identity of its own, if it needs one. -/
def identify (v : Value) : Action Value := do
  if v.isDistinct then return .own (← identity) v else return v

/-- The value made into one of a native type. -/
def convert (base : NativeType) (v : Value) : Action Value :=
  match base with
  | .int => do return .int (← ofExcept v.toWhole)
  | .float => do return .float (← ofExcept v.toFloating)
  | .str => do return .str (← shown v)
  | .list => do return .list (← ofExcept v.toItems)
  | .tuple => do return .sequence .tuple (← ofExcept v.toItems)
  | .dictionary => do return .dictionary (← ofExcept v.toEntries)
  | .binary kind => do return .binary kind (← ofExcept (v.octets kind))

end Action

mutual

/-- The value as it stands in the session: what is described is made, and keys of dictionaries are
made distinct, in order. Containers, objects and NaN get an identity, which the repeated items of a
list share. The fields of self-rendering objects stay as they are. -/
def Value.read : Value → Action Value
  | .sequence kind items => do Action.identify (.sequence kind (← Value.readItems items))
  | .mapping .pairs entries => do Action.identify (.mapping .pairs (← Value.readEntries entries))
  | .mapping kind entries => do
    match Keyed.dictionary? [] (← Value.readEntries entries) with
    | .ok entries => Action.identify (.mapping kind entries)
    | .error kind => Action.fail (.type (.unhashable kind))
  | .derived base => do return .derived (← base.read)
  | .object shown => do Action.identify (.object (← shown.read))
  | .described d => Value.readDescription d
  | v => Action.identify v
termination_by structural v => v

def Value.readItems : List Value → Action (List Value)
  | [] => return []
  | v :: rest => do
    let v ← v.read
    return v :: (← Value.readItems rest)
termination_by structural vs => vs

def Value.readEntries : List (Value × Value) → Action Entries
  | [] => return []
  | (k, v) :: rest => do
    let k ← k.read
    let v ← v.read
    return (k, v) :: (← Value.readEntries rest)
termination_by structural es => es

/-- The value made from what it is described by. -/
def Value.readDescription : Description Value → Action Value
  | .slot name => do return .generator (← Action.slot name)
  | .fresh options => do return .generator (← Action.buildOptional (← options.read))
  | .repeated v times => do
    Action.identify (← Action.ofExcept ((← v.read).times (.whole times)))
  | .derived base v => do
    return .derived (← Action.identify (← Action.convert base (← v.read)))
termination_by structural d => d

end

/-- An optional value, read if it is there. -/
def Action.readOptional : Option Value → Action (Option Value)
  | none => return none
  | some v => do return some (← v.read)

end JsonWriter
