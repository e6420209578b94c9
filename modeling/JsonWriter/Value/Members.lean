import JsonWriter.Value.Key

/-!
The values that a value of any type has in it.
-/

namespace JsonWriter.Value

/-- The values that a value gives one after the other, or the fault for one that gives none: the items
of a sequence, the keys of a mapping, the code points of a text and the numbers of bytes. A generator
is asked for them by number, and no setting is named zero. -/
def members (v : Value) (otherwise : Fault) : Except Fault (List Value) :=
  match v.data?, v.text?, v.node with
  | some data, _, _ => .ok (data.map fun b => int b.toNat)
  | none, some t, _ => .ok (t.map fun c => str [c])
  | none, none, .array items => .ok items
  | none, none, .object entries => .ok (entries.map (·.1))
  | none, none, _ =>
    match v with
    | generator _ => .error (.key (some (text "0")))
    | _ => .error otherwise

end JsonWriter.Value
