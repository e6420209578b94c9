import JsonWriter.Value.Basic

/-!
The parts of an output. What comes of a setting that is no text cannot be joined to others.
-/

namespace JsonWriter.Render

/-- A text, or a value of the type named. -/
inductive Part
  | text (t : Text)
  | other (kind : Text)
deriving DecidableEq

namespace Part

def ofValue (v : Value) : Part :=
  match v.text? with
  | some t => text t
  | none => other v.kind

/-- The text of a part, empty if it is none. -/
def content : Part → Text
  | text t => t
  | other _ => []

/-- The first part that is no text, with its place from the given one on. -/
def firstOther? (index : Nat) : List Part → Option (Nat × Text)
  | [] => none
  | text _ :: rest => firstOther? (index + 1) rest
  | other kind :: _ => some (index, kind)

/-- The parts as one text. -/
def join (parts : List Part) : Except Fault Text :=
  match firstOther? 0 parts with
  | none => .ok (parts.map content).flatten
  | some (index, kind) => .error (.type (.notPart index kind))

end Part

end JsonWriter.Render
