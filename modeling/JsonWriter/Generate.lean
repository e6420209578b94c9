import JsonWriter.Render.Machine
import JsonWriter.Session.Read

/-!
Generating JSON text with a generator, and the objects that write themselves by generating in turn.
Each of them is handed a generator of its own.
-/

namespace JsonWriter

/-! ## Objects that write themselves -/

namespace Value

mutual

/-- How deep objects that write themselves are nested in what they write. -/
def rank : Value → Nat
  | sequence _ items => rankItems items
  | mapping _ entries => rankEntries entries
  | selfList items => rankItems items
  | selfDictionary entries => rankEntries entries
  | derived base => rank base
  | own _ v => rank v
  | described d => rankDescription d
  | extension e => rankExtension e + 1
  | _ => 0
termination_by structural v => v

def rankItems : List Value → Nat
  | [] => 0
  | v :: rest => max (rank v) (rankItems rest)
termination_by structural vs => vs

def rankEntries : List (Value × Value) → Nat
  | [] => 0
  | (k, v) :: rest => max (max (rank k) (rank v)) (rankEntries rest)
termination_by structural es => es

def rankExtension : Extension Value → Nat
  | .point x y => max (rank x) (rank y)
  | .delegate v _ => rank v
  | .reconfigured v _ => rank v
  | .mutator _ v => rank v
  | .literal _ | .depthText | .stateText | .capture _ _ | .raiser _ _ => 0
termination_by structural e => e

def rankDescription : Description Value → Nat
  | .repeated v _ | .derived _ v => rank v
  | .slot _ | .fresh _ => 0
termination_by structural d => d

end

end Value

/-- Renders a value with a generator, at the depth given or else the generator's own. -/
abbrev Renderer := Value → Nat → Option Value → Action Text

namespace Action

/-- The generator that a configuration stands for: itself, one built from a mapping, or a new one. -/
def resolve (config : Value) : Action Nat :=
  match config with
  | .generator id => return id
  | config => if config.entries?.isSome then build config else build (.dictionary [])

end Action

/-- Text is well formed if it has a UTF-8 form, and is ASCII where that is asked for. -/
def checkOutput (asciiOnly : Bool) (t : Text) : Except Fault Unit :=
  if ¬ t.IsScalar then .error (.encoding (.surrogate t (Quoted.ofText t)))
  else if asciiOnly ∧ ¬ t.IsAscii then .error (.encoding (.notAscii t))
  else .ok ()

/-- The checked text of a value, at the generator's own depth. -/
def generateWith (render : Renderer) (v : Value) (id : Nat) : Action Text :=
  Action.logged <| Action.counted (text "generate") 0 do
    let t ← render v id none
    Action.ofExcept (checkOutput (← Action.generator id).asciiOnly.isTrue t)
    return t

namespace Extension

/-- What an object returns for its text, with the generator it is given. -/
def call (render : Renderer) (id : Nat) : Extension Value → Action Value
  | literal v => v.read
  | point x y => do
    let x ← x.read
    let y ← y.read
    .str <$> generateWith render (.dictionary [(.str (text "x"), x), (.str (text "y"), y)]) id
  | depthText => do .str <$> Action.shown (← Action.generator id).depth
  | stateText => .str <$> Action.literal (.generator id)
  | delegate v depth => do
    let v ← v.read
    let depth ← Action.readOptional depth
    .str <$> render v id (Value.given? depth)
  | reconfigured v config => do
    let v ← v.read
    let config ← Action.readOptional config
    .str <$> generateWith render v (← Action.resolve (config.getD .null))
  | mutator settings v => do
    settings.forM fun (name, value) => do
      let name ← name.read
      Action.set id name (← value.read)
    .str <$> generateWith render (← v.read) id
  | capture slot v => do
    Action.setSlot slot id
    v.read
  | raiser error message => Action.fail (.raised error message)

/-- The text of an object at a depth. It gets a copy of the generator, set to that depth. -/
def write (render : Renderer) (g : Generator) (e : Extension Value) (depth : Value) :
    Action Text := do
  let id ← Action.copy g
  Action.replace id ((← Action.generator id).put .depth depth)
  let result ← e.call render id
  match result.text? with
  | some t => return t
  | none => Action.fail (.encoding (.notText e.kind result.kind))

end Extension

/-! ## Rendering and generating -/

/-- The text of a value, with so many levels of objects that write themselves. -/
def renderAt : Nat → Renderer
  | level, v, id, depth => do
    let g ← Action.generator id
    let extend : Render.Extender :=
      match level with
      | 0 => fun _ _ => Action.fail .endless
      | level + 1 => Extension.write (renderAt level) g
    let parts ← Action.counted (text "render") 0
      (Render.parts extend g.format v (depth.getD g.depth))
    Action.ofExcept (Render.Part.join parts)

/-- The text of a value, not checked as a whole. -/
def render : Renderer := fun v => renderAt v.rank v

/-- The checked text of a value. -/
def generate (v : Value) (id : Nat) : Action Text := generateWith render v id

/-- The checked text of a value under any configuration. -/
def generateConfigured (v config : Value) : Action Text := do
  generate v (← Action.resolve config)

/-- A new generator with some entries, changed by a configuration unless that is null. -/
def merged (base : Entries) (config : Value) : Action Nat := do
  let id ← Action.build (.dictionary base)
  match config with
  | .null => return id
  | .generator other => Action.configure id (.dictionary (← Action.generator other).entries)
  | config => Action.configure id config
  return id

/-- Indented text, with the settings of a configuration over those for easy reading. -/
def prettyGenerate (v config : Value) : Action Text := do
  generate v (← merged Generator.prettyEntries config)

/-- Text without a limit on nesting. -/
def fastGenerate (v config : Value) : Action Text := do
  let id ← merged [] config
  Action.replace id ((← Action.generator id).put .maxNesting (.int 0))
  generate v id

end JsonWriter
