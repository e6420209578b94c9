import JsonWriter.Value.Mapping
import JsonWriter.Value.Operator
import JsonWriter.Value.Shown

/-!
A generator: ten settings and the unknown keys that came with them. Settings are kept as the
values that were given. Values given by name or by configuration are checked first, direct
assignment is not.
-/

namespace JsonWriter

structure Generator where
  indent : Value
  space : Value
  spaceBefore : Value
  objectNewline : Value
  arrayNewline : Value
  maxNesting : Value
  allowNan : Value
  asciiOnly : Value
  bufferLength : Value
  depth : Value
  unknown : Entries

namespace Generator

def defaultNesting : Int := 100

def defaultBufferLength : Int := 1024

/-- Compact output, at most a hundred levels deep. -/
def initial : Generator where
  indent := .str []
  space := .str []
  spaceBefore := .str []
  objectNewline := .str []
  arrayNewline := .str []
  maxNesting := .int defaultNesting
  allowNan := .bool false
  asciiOnly := .bool false
  bufferLength := .int defaultBufferLength
  depth := .int 0
  unknown := []

def get (g : Generator) : Setting → Value
  | .indent => g.indent
  | .space => g.space
  | .spaceBefore => g.spaceBefore
  | .objectNewline => g.objectNewline
  | .arrayNewline => g.arrayNewline
  | .maxNesting => g.maxNesting
  | .allowNan => g.allowNan
  | .asciiOnly => g.asciiOnly
  | .bufferLength => g.bufferLength
  | .depth => g.depth

def put (g : Generator) (s : Setting) (v : Value) : Generator :=
  match s with
  | .indent => { g with indent := v }
  | .space => { g with space := v }
  | .spaceBefore => { g with spaceBefore := v }
  | .objectNewline => { g with objectNewline := v }
  | .arrayNewline => { g with arrayNewline := v }
  | .maxNesting => { g with maxNesting := v }
  | .allowNan => { g with allowNan := v }
  | .asciiOnly => { g with asciiOnly := v }
  | .bufferLength => { g with bufferLength := v }
  | .depth => { g with depth := v }

@[simp] theorem get_put (g : Generator) (s t : Setting) (v : Value) :
    (g.put s v).get t = if t = s then v else g.get t := by
  cases s <;> cases t <;> rfl

@[simp] theorem unknown_put (g : Generator) (s : Setting) (v : Value) :
    (g.put s v).unknown = g.unknown := by
  cases s <;> rfl

/-- Direct assignment. Anything goes, but a buffer length that is not positive changes nothing. -/
def assign (g : Generator) (s : Setting) (v : Value) : Except Fault Generator :=
  if s = .bufferLength then
    v.isPositive.map fun positive => if positive then g.put s v else g
  else .ok (g.put s v)

/-- The settings in order and the unknown keys after them. -/
def entries (g : Generator) : Entries :=
  Setting.all.map (fun s => (.str s.name, g.get s)) ++ g.unknown

/-- The generator as it shows itself in messages, given the containers around it. -/
def shownIn (describe : List Nat → Nat → Option Text) (entered : List Nat) (g : Generator) :
    Option Text :=
  (Setting.all.mapM fun s =>
    ((g.get s).literalIn describe entered []).map fun t => s.name ++ text "=" ++ t).map fun parts =>
      text "GeneratorState(" ++ Value.commas parts ++ text ")"

/-! ## What rendering takes from a generator -/

/-- The texts that go between tokens, where directly assigned values may be a fault instead, and the
limits and switches. -/
structure Format where
  indent : Value
  colon : Except Fault Text
  objectNewline : Except Fault Text
  arrayNewline : Except Fault Text
  maxNesting : Value
  allowNan : Bool
  asciiOnly : Bool

/-- The text between a key and its value. -/
def colon (g : Generator) : Except Fault Text := do
  let before ← g.spaceBefore.textBefore
  let after ← g.space.textAfter
  return before ++ .ofChar ':' :: after

def format (g : Generator) : Format where
  indent := g.indent
  colon := g.colon
  objectNewline := g.objectNewline.textAfter
  arrayNewline := g.arrayNewline.textAfter
  maxNesting := g.maxNesting
  allowNan := g.allowNan.isTrue
  asciiOnly := g.asciiOnly.isTrue

/-- A nesting limit of zero is none. -/
def isUnlimited (limit : Value) : Bool := limit.number?.any (·.isZero)

/-- One more container may open inside one at that depth. -/
def checkNesting (limit depth : Value) : Except Fault Unit :=
  if isUnlimited limit then .ok ()
  else do
    let current ← depth.succ
    let limit ← limit.bound current
    if current.exceeds limit then .error (.tooDeep current limit) else .ok ()

end Generator

end JsonWriter
