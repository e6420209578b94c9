import JsonWriter.Decimal.Binary64
import JsonWriter.Fault

/-!
The values that are written as JSON and that configure a generator, with the views of them that
the rest of the library uses: `content`, `text?`, `number?`, `isTrue` and `node`.
-/

namespace JsonWriter

inductive BinaryKind
  | bytes
  | byteArray
deriving DecidableEq

inductive SequenceKind
  | list
  | tuple
deriving DecidableEq

/-- A dictionary has distinct keys that can be hashed, and so has a read-only view of one; a list
of pairs has any keys, as often as it likes. -/
inductive MappingKind
  | dictionary
  | view
  | pairs
deriving DecidableEq

/-- An object that writes itself, by what it does with the generator it is given. Its fields are
read anew each time. -/
inductive Extension (α : Type)
  | literal (value : α)
  | point (x y : α)
  | depthText
  | stateText
  | delegate (value : α) (depth : Option α)
  | reconfigured (value : α) (config : Option α)
  | mutator (settings : List (α × α)) (value : α)
  | capture (slot : Text) (value : α)
  | raiser (error : FaultClass) (message : Text)

/-- The types that others derive from. -/
inductive NativeType
  | int
  | float
  | str
  | list
  | tuple
  | dictionary
  | binary (kind : BinaryKind)
deriving DecidableEq

/-- What a value is to be made of: a generator looked up or built, something repeated, or a value of
a type derived from a native one. -/
inductive Description (α : Type)
  | slot (name : Text)
  | fresh (options : α)
  | repeated (v : α) (times : Int)
  | derived (base : NativeType) (v : α)

/-- A value. `derived` is a value of a type derived from a native one, which shows itself as `sub!`
whatever it holds, and `object` one that shows itself as a text. `own` gives a value an identity, by which it
is known where what it holds does not tell it apart. `selfList` and `selfDictionary` bind themselves
in their entries, where `outer i` is the `i`-th of them outwards. Reading a value makes what is only
`described` in it. -/
inductive Value
  | null
  | bool (b : Bool)
  | int (n : Int)
  | float (x : Binary64)
  | str (t : Text)
  | setting (s : Setting)
  | binary (kind : BinaryKind) (data : List UInt8)
  | memory (data : List UInt8)
  | sequence (kind : SequenceKind) (items : List Value)
  | mapping (kind : MappingKind) (entries : List (Value × Value))
  | selfList (items : List Value)
  | selfDictionary (entries : List (Value × Value))
  | outer (index : Nat)
  | derived (base : Value)
  | own (identity : Nat) (v : Value)
  | object (shown : Value)
  | type (name : Text)
  | extension (e : Extension Value)
  | generator (id : Nat)
  | described (d : Description Value)

/-- Things in order, each under a key. -/
abbrev Keyed (α : Type) := List (Value × α)

abbrev Entries := Keyed Value

/-- The name of the type of a self-rendering object. -/
def Extension.kind {α : Type} : Extension α → Text
  | .literal _ => text "Literal"
  | .point _ _ => text "Point"
  | .depthText => text "DepthText"
  | .stateText => text "StateText"
  | .delegate _ _ => text "Delegate"
  | .reconfigured _ _ => text "Reconf"
  | .mutator _ _ => text "Mutator"
  | .capture _ _ => text "Capture"
  | .raiser _ _ => text "Raiser"

/-- The types whose objects write themselves. -/
def Extension.kinds : List Text :=
  [text "Literal", text "Point", text "DepthText", text "StateText", text "Delegate",
    text "Reconf", text "Mutator", text "Capture", text "Raiser"]

namespace Value

def list (items : List Value) : Value := sequence .list items

def dictionary (entries : Entries) : Value := mapping .dictionary entries

/-- A value that is given and not null. -/
def given? : Option Value → Option Value
  | none | some null => none
  | some v => some v

/-- The name of a value's type. -/
def kind : Value → Text
  | null => text "NoneType"
  | bool _ => text "bool"
  | int _ => text "int"
  | float _ => text "float"
  | str _ => text "str"
  | setting _ => text "Option"
  | binary .bytes _ => text "bytes"
  | binary .byteArray _ => text "bytearray"
  | memory _ => text "memoryview"
  | sequence .list _ | selfList _ | outer _ => text "list"
  | sequence .tuple _ => text "tuple"
  | mapping .dictionary _ | selfDictionary _ => text "dict"
  | mapping .view _ => text "mappingproxy"
  | mapping .pairs _ => text "PairList"
  | derived _ => text "Sub"
  | own _ v => v.kind
  | object _ => text "Thing"
  | type _ => text "type"
  | extension e => e.kind
  | generator _ => text "GeneratorState"
  | described _ => text "object"

/-- The value without its identity and what a derived type adds to it. -/
def content : Value → Value
  | derived base => base.content
  | own _ v => v.content
  | v => v

/-- The text that a value is: a setting is its name. -/
def text? (v : Value) : Option Text :=
  match v.content with
  | str t => some t
  | setting s => some s.name
  | _ => none

/-- The whole number that a value is: true is one, false is zero. -/
def int? (v : Value) : Option Int :=
  match v.content with
  | int n => some n
  | bool b => some b.toNat
  | _ => none

/-- A whole number proper, no truth value. -/
def wholeNumber? (v : Value) : Option Int :=
  match v.content with
  | int n => some n
  | _ => none

/-- The number that a value is. -/
def number? (v : Value) : Option Number :=
  match v.content with
  | bool b => some (.truth b)
  | int n => some (.whole n)
  | float x => some (.floating x)
  | _ => none

/-- The number by which a value is known. -/
def identity? : Value → Option Nat
  | own i _ => some i
  | derived base => base.identity?
  | _ => none

def isDerived : Value → Bool
  | derived _ => true
  | _ => false

/-- Null, false, zero and whatever is empty are not true, and all else is. -/
def isTrue (v : Value) : Bool :=
  match v.content with
  | null => false
  | bool b => b
  | int n => n != 0
  | float x => !decide x.IsZero
  | str t => !t.isEmpty
  | binary _ data | memory data => !data.isEmpty
  | sequence _ items => !items.isEmpty
  | mapping _ entries => !entries.isEmpty
  | _ => true

mutual

/-- The value with `whole` for the self-containing value bound `k` levels up. -/
def instantiate (whole : Value) (k : Nat) : Value → Value
  | outer i => if i = k then whole else outer i
  | sequence kind items => sequence kind (instantiateItems whole k items)
  | mapping kind entries => mapping kind (instantiateEntries whole k entries)
  | selfList items => selfList (instantiateItems whole (k + 1) items)
  | selfDictionary entries => selfDictionary (instantiateEntries whole (k + 1) entries)
  | derived base => derived (instantiate whole k base)
  | own i v => own i (instantiate whole k v)
  | v => v
termination_by structural v => v

def instantiateItems (whole : Value) (k : Nat) : List Value → List Value
  | [] => []
  | v :: rest => instantiate whole k v :: instantiateItems whole k rest
termination_by structural vs => vs

def instantiateEntries (whole : Value) (k : Nat) : List (Value × Value) → List (Value × Value)
  | [] => []
  | (key, v) :: rest => (key, instantiate whole k v) :: instantiateEntries whole k rest
termination_by structural es => es

end

/-- What a value is to the writer, one level deep. -/
inductive Node
  | null
  | bool (b : Bool)
  | str (t : Text)
  | int (n : Int)
  | float (x : Binary64)
  | array (items : List Value)
  | object (entries : List (Value × Value))
  | extension (e : Extension Value)
  | other

/-- The tagged object that carries bytes: the name of their kind and one number a byte. -/
def rawEntries (kind : BinaryKind) (data : List UInt8) : Entries :=
  [(str (text "json_class"), str (binary kind data).kind),
    (str (text "raw"), list (data.map fun b => int b.toNat))]

/-- Native content decides, and self-containing values unfold once. -/
def node : Value → Node
  | null => .null
  | bool b => .bool b
  | int n => .int n
  | float x => .float x
  | str t => .str t
  | setting s => .str s.name
  | binary kind data => .object (rawEntries kind data)
  | sequence _ items => .array items
  | mapping _ entries => .object entries
  | selfList items => .array (instantiateItems (selfList items) 0 items)
  | selfDictionary entries => .object (instantiateEntries (selfDictionary entries) 0 entries)
  | derived base => base.node
  | own _ v => v.node
  | extension e => .extension e
  | _ => .other

end Value

/-- The number as a value. -/
def Number.value : Number → Value
  | truth b => .bool b
  | whole n => .int n
  | floating x => .float x

end JsonWriter
