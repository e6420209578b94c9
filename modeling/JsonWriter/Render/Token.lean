import JsonWriter.Session.Action
import JsonWriter.Text.Escape

/-!
Texts of single values: quoted strings, keys, numbers and the texts between them.
-/

namespace JsonWriter.Render

open Generator (Format)

/-- The name under which escaping is counted. -/
def escaperName (asciiOnly : Bool) : Text :=
  text (if asciiOnly then "escape_ascii" else "escape_utf8")

/-- The body of a JSON string for the bytes of a text. -/
def escape (asciiOnly : Bool) (raw : List UInt8) : Action Text :=
  Action.counted (escaperName asciiOnly) raw.length <| Action.ofExcept <|
    match if asciiOnly then Escape.ascii raw else Escape.plain raw with
    | .ok body => .ok body
    | .error byte => .error (.encoding (.illFormed byte raw))

/-- A JSON string. `shown` is the text in messages, if it has no UTF-8 form. -/
def quoted (asciiOnly : Bool) (t shown : Text) : Action Text := do
  match Utf8.encode? t with
  | none => Action.fail (.encoding (.surrogate t shown))
  | some raw =>
    let body ← escape asciiOnly raw
    return .ofChar '"' :: body ++ [.ofChar '"']

/-- The text of a value in messages: one of a derived type shows itself as `sub!`, also where it is the
text of an object. -/
def shownText (v : Value) (t : Text) : Text :=
  match v with
  | .derived _ | .object (.derived _) | .own _ (.object (.derived _)) => text "sub!"
  | _ => Quoted.ofText t

/-- The text that stands for a key. -/
def keyText (key : Value) : Action Text :=
  match key.text? with
  | some t => return t
  | none =>
    match key with
    | .bool b => return text (if b then "true" else "false")
    | .null => return text "null"
    | key => Action.shown key

/-- A key as a JSON string. -/
def label (f : Format) (key : Value) : Action Text := do
  let t ← keyText key
  quoted f.asciiOnly t (shownText key t)

def number (n : Int) : Action Text :=
  match Decimal.ofInt? n with
  | some t => return t
  | none => Action.fail (.encoding .tooManyDigits)

/-- Numbers that are not finite have names of their own, if they are allowed. -/
def float (f : Format) (x : Binary64) : Action Text :=
  if x.IsFinite then return x.finiteText
  else
    let token := text (if x.IsNan then "NaN" else if x.negative then "-Infinity" else "Infinity")
    if f.allowNan then return token else Action.fail (.encoding (.notFinite token))

end JsonWriter.Render
