import JsonWriter.Generator.Basic

/-!
Checked changes to a generator: by name, and by a mapping of settings. A mapping is read to its end
before anything changes.
-/

namespace JsonWriter

/-- The setting that a key names. -/
def Value.setting? (key : Value) : Option Setting := key.text?.bind Setting.ofName?

namespace Setting

/-- The value as the setting takes it: switches take the truth of any value, limits whole numbers
that are not negative, the buffer length any whole number, the others text. -/
def check (s : Setting) (v : Value) : Except Fault Value :=
  match s with
  | allowNan | asciiOnly => .ok (.bool v.isTrue)
  | maxNesting | depth =>
    match v.wholeNumber? with
    | none => .error (.type (.settingNotInteger s v.kind))
    | some n => if n < 0 then .error (.value (.negativeSetting s)) else .ok v
  | bufferLength =>
    if v.wholeNumber?.isSome then .ok v else .error (.type (.settingNotInteger s v.kind))
  | indent | space | spaceBefore | objectNewline | arrayNewline =>
    if v.text?.isSome then .ok v else .error (.type (.settingNotText s v.kind))

/-- As `check`, but whatever is not true lifts the nesting limit. -/
def checkEntry (s : Setting) (v : Value) : Except Fault Value :=
  if s = maxNesting ∧ v.isTrue = false then .ok (.int 0) else s.check v

end Setting

/-- What a mapping asks for: a value for some settings, and the keys that name none. -/
structure Update where
  value? : Setting → Option Value
  unknown : Entries

namespace Update

/-- A mapping that does not mention the nesting limit resets it. -/
def initial : Update where
  value? s := if s = .maxNesting then some (.int Generator.defaultNesting) else none
  unknown := []

def set (u : Update) (s : Setting) (v : Value) : Update :=
  { u with value? := fun t => if t = s then some v else u.value? t }

/-- The update with the entries of a mapping read in order; the first bad entry is the fault. -/
def read (u : Update) : Entries → Except Fault Update
  | [] => .ok u
  | (key, v) :: rest =>
    match key.setting? with
    | some s =>
      match s.checkEntry v with
      | .error f => .error f
      | .ok v => read (u.set s v) rest
    | none =>
      match key.unhashable? with
      | some kind => .error (.type (.unhashable kind))
      | none => read { u with unknown := u.unknown.insert key v } rest

end Update

namespace Generator

/-- Assignment of checked values: a buffer length that is not positive changes nothing. -/
def putChecked (g : Generator) (s : Setting) (v : Value) : Generator :=
  if s = .bufferLength ∧ v.int?.all (· ≤ 0) then g else g.put s v

def apply (g : Generator) (u : Update) : Generator :=
  let set (g : Generator) (s : Setting) : Generator :=
    match u.value? s with
    | some v => g.putChecked s v
    | none => g
  { Setting.all.foldl set g with unknown := g.unknown.insertAll u.unknown }

/-- The generator with the settings of a mapping, and the keys that were of no use. -/
def configure (g : Generator) (options : Value) : Except Fault (Generator × List Value) :=
  match options.entries? with
  | none => .error (.notMapping options.kind)
  | some es => (Update.initial.read es).map fun u => (g.apply u, u.unknown.map (·.1))

/-- The generator with one setting changed. -/
def set (g : Generator) (s : Setting) (v : Value) : Except Fault Generator :=
  (s.check v).map (g.putChecked s)

/-- The entries that make output easy on the eye. -/
def prettyEntries : Entries :=
  [(.setting .indent, .str (text "  ")), (.setting .space, .str (text " ")),
    (.setting .objectNewline, .str (text "\n")), (.setting .arrayNewline, .str (text "\n"))]

/-- A generator of its own with the same settings, depth and unknown keys. -/
def copy (g : Generator) : Except Fault (Generator × List Value) :=
  initial.configure (.dictionary g.entries)

end Generator

end JsonWriter
