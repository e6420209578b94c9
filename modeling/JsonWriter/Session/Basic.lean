import JsonWriter.Generator.Configure
import JsonWriter.Session.Profile
import JsonWriter.Value.Equality

/-!
A session holds what outlives a single call: generators by number, named slots that hold them,
log records and counters.
-/

namespace JsonWriter

/-- What is logged: a key of no use to a generator, and a failure to generate. -/
inductive Record
  | ignored (key : Value)
  | failed (fault : Fault)

namespace Record

def logger : Record → Text
  | ignored _ => text "jsongen._state"
  | failed _ => text "jsongen._encoder"

def message : Record → Text
  | ignored key =>
    text "Ignoring unknown generator option " ++ (key.literal? fun _ _ => none).getD []
  | failed fault => text "JSON generation failed: " ++ fault.name ++ text ": " ++ fault.message

end Record

/-- `identities` is the number of values that were given an identity. -/
structure Session where
  generators : Array Generator
  identities : Nat
  slots : List (Text × Nat)
  log : Array Record
  profiling : Bool
  profile : Profile
  kept : Snapshot

namespace Session

def initial (profiling : Bool) : Session := ⟨#[], 0, [], #[], profiling, .empty, []⟩

def generator? (s : Session) (id : Nat) : Option Generator := s.generators[id]?

/-- The text of a generator inside containers, with so many generators inside each other. -/
def describeAt (s : Session) : Nat → List Nat → Nat → Option Text
  | 0, _, _ => none
  | level + 1, entered, id =>
    (s.generator? id).bind (Generator.shownIn (s.describeAt level) entered)

/-- The text of a generator in messages. A text that ends enters no container twice on the way down,
and no generator twice between two containers. -/
def describe (s : Session) (entered : List Nat) (id : Nat) : Option Text :=
  s.describeAt ((s.identities + 1) * (s.generators.size + 1)) entered id

/-- Equality of generators as mappings, with so many pairs of them inside each other. -/
def compareAt (s : Session) : Nat → Nat → Nat → Comparison
  | 0, _, _ => .ok false
  | level + 1, i, j =>
    match s.generator? i, s.generator? j with
    | some g, some h =>
      Value.compare (s.compareAt level) (.dictionary g.entries) (.dictionary h.entries)
    | _, _ => .ok false

/-- Equality of generators. A comparison that ends meets no pair of them inside itself. -/
def compare (s : Session) (i j : Nat) : Comparison :=
  s.compareAt (s.generators.size * s.generators.size + 1) i j

def slot? (s : Session) (name : Text) : Option Nat :=
  (s.slots.find? fun e => e.1 == name).map (·.2)

def setSlot (s : Session) (name : Text) (id : Nat) : Session :=
  { s with slots := (name, id) :: s.slots.filter fun e => e.1 != name }

/-- Counts a call under a name, if calls are counted at all. Durations are not kept. -/
def record (s : Session) (name : Text) (size : Value) : Except Fault Unit × Session :=
  if s.profiling then
    let (r, p) := s.profile.record name (.int 0) size
    (r, { s with profile := p })
  else (.ok (), s)

end Session

end JsonWriter
