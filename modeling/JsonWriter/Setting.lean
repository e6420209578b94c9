import JsonWriter.Text.Basic

/-!
The closed set of names under which a generator is configured.
-/

namespace JsonWriter

inductive Setting
  | indent
  | space
  | spaceBefore
  | objectNewline
  | arrayNewline
  | maxNesting
  | allowNan
  | asciiOnly
  | bufferLength
  | depth
deriving DecidableEq

namespace Setting

/-- The settings in the order in which they are listed. -/
def all : List Setting :=
  [indent, space, spaceBefore, objectNewline, arrayNewline, maxNesting, allowNan, asciiOnly,
    bufferLength, depth]

theorem mem_all (s : Setting) : s ∈ all := by cases s <;> simp [all]

/-- The name that configurations use. -/
def name : Setting → Text
  | indent => text "indent"
  | space => text "space"
  | spaceBefore => text "space_before"
  | objectNewline => text "object_nl"
  | arrayNewline => text "array_nl"
  | maxNesting => text "max_nesting"
  | allowNan => text "allow_nan"
  | asciiOnly => text "ascii_only"
  | bufferLength => text "buffer_initial_length"
  | depth => text "depth"

/-- The name of the setting as a constant. -/
def constant : Setting → Text
  | indent => text "INDENT"
  | space => text "SPACE"
  | spaceBefore => text "SPACE_BEFORE"
  | objectNewline => text "OBJECT_NL"
  | arrayNewline => text "ARRAY_NL"
  | maxNesting => text "MAX_NESTING"
  | allowNan => text "ALLOW_NAN"
  | asciiOnly => text "ASCII_ONLY"
  | bufferLength => text "BUFFER_INITIAL_LENGTH"
  | depth => text "DEPTH"

def ofName? (t : Text) : Option Setting := all.find? fun s => s.name = t

theorem ofName?_name (s : Setting) : ofName? s.name = some s := by cases s <;> rfl

end Setting

end JsonWriter
