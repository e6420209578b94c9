import JsonWriter.Value.Key

/-!
The entries of values that are mappings.
-/

namespace JsonWriter

/-- The value under the last key equal to a name. -/
def Entries.last? (name : Text) (es : Entries) : Option Value :=
  (es.reverse.find? fun e => e.1.text? == some name).map (·.2)

/-- The entries of a value that is a mapping. -/
def Value.entries? (v : Value) : Option Entries :=
  match v.content with
  | mapping _ entries => some entries
  | selfDictionary entries => some (instantiateEntries (selfDictionary entries) 0 entries)
  | _ => none

end JsonWriter
