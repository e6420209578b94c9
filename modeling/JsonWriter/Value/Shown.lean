import JsonWriter.Decimal.Shortest
import JsonWriter.Value.Basic

/-!
How values show themselves: `literal?` is the form for messages, `shown?` the form for output. There
is none when a whole number in it has too many digits, or when it does not end.
-/

namespace JsonWriter

namespace Value

/-- The parts in order, with a comma and a space between. -/
def commas (parts : List Text) : Text := Text.join (text ", ") parts

/-- A tuple of one has a comma after it. -/
def tupleText : List Text → Text
  | [part] => text "(" ++ part ++ text ",)"
  | parts => text "(" ++ commas parts ++ text ")"

def listText (parts : List Text) : Text := text "[" ++ commas parts ++ text "]"

def dictionaryText (parts : List Text) : Text := text "\x7b" ++ commas parts ++ text "\x7d"

/-- The types of self-rendering objects carry the name of their module. -/
def typeText (name : Text) : Text :=
  let qualified := if name ∈ Extension.kinds then text "oracle." ++ name else name
  text "<class '" ++ qualified ++ text "'>"

/-- The form of a container inside itself. -/
def reentered : Value → Text
  | sequence .tuple _ => text "(...)"
  | mapping .dictionary _ => text "\x7b...\x7d"
  | mapping .view _ => text "mappingproxy(\x7b...\x7d)"
  | _ => text "[...]"

mutual

/-- The form for messages. Types that derive from native ones all have the one form `sub!` in place of
the native one. `describe` gives the text of a generator inside the containers with the
given identities, `entered` are those around the value, and `bound` are the texts of the enclosing
self-containing values where they occur in themselves. -/
def literalIn (describe : List Nat → Nat → Option Text) (entered : List Nat) (bound : List Text) :
    Value → Option Text
  | null => some (text "None")
  | bool b => some (text (if b then "True" else "False"))
  | int n => Decimal.ofInt? n
  | float x => some x.shown
  | str t => some (Quoted.ofText t)
  | setting s =>
    some (text "<Option." ++ s.constant ++ text ": " ++ Quoted.ofText s.name ++ text ">")
  | binary .bytes data => some (Quoted.ofBytes data)
  | binary .byteArray data => some (Quoted.ofByteArray data)
  | memory _ => some (text "<memory>")
  | sequence .list items => (literalItems describe entered bound items).map listText
  | sequence .tuple items => (literalItems describe entered bound items).map tupleText
  | mapping .dictionary entries =>
    (literalEntries describe entered bound entries).map dictionaryText
  | mapping .view entries =>
    (literalEntries describe entered bound entries).map fun parts =>
      text "mappingproxy(" ++ dictionaryText parts ++ text ")"
  | mapping .pairs _ => some (text "<PairList>")
  | selfList items => (literalItems describe entered (text "[...]" :: bound) items).map listText
  | selfDictionary entries =>
    (literalEntries describe entered (text "\x7b...\x7d" :: bound) entries).map dictionaryText
  | outer i => some (bound.getD i [])
  | derived _ => some (text "sub!")
  | own i v => if i ∈ entered then some v.reentered else literalIn describe (i :: entered) bound v
  | object _ => some (text "<Thing>")
  | type name => some (typeText name)
  | extension _ => some (text "<Ext>")
  | generator id => describe entered id
  | described _ => some (text "<object>")
termination_by structural v => v

def literalItems (describe : List Nat → Nat → Option Text) (entered : List Nat)
    (bound : List Text) : List Value → Option (List Text)
  | [] => some []
  | v :: rest =>
    match literalIn describe entered bound v with
    | none => none
    | some t => (literalItems describe entered bound rest).map (t :: ·)
termination_by structural vs => vs

def literalEntries (describe : List Nat → Nat → Option Text) (entered : List Nat)
    (bound : List Text) : List (Value × Value) → Option (List Text)
  | [] => some []
  | (k, v) :: rest =>
    match literalIn describe entered bound k, literalIn describe entered bound v with
    | some kt, some vt =>
      (literalEntries describe entered bound rest).map ((kt ++ text ": " ++ vt) :: ·)
    | _, _ => none
termination_by structural es => es

end

def literal? (describe : List Nat → Nat → Option Text) (v : Value) : Option Text :=
  literalIn describe [] [] v

/-- The form for output: a text is itself, and a view shows what it is a view of. -/
def shown? (describe : List Nat → Nat → Option Text) : Value → Option Text
  | str t => some t
  | setting s => some s.name
  | object shown | own _ (object shown) => shown.text?
  | mapping .view entries => literal? describe (dictionary entries)
  | own i (mapping .view entries) => literal? describe (own i (dictionary entries))
  | v => literal? describe v

end Value

end JsonWriter
