import JsonWriter.Generate
import JsonWriter.RawObject
import JsonWriter.Report

/-!
The operations of the library on values as they are written down. Arguments are read in order before
the operation starts.
-/

namespace JsonWriter

inductive Operation
  | generate (value : Value) (config : Option Value)
  | prettyGenerate (value : Value) (config : Option Value)
  | fastGenerate (value : Value) (config : Option Value)
  | toJsonRaw (data : Value) (config : Option Value)
  | render (value config : Value) (depth : Option Value)
  | escape (asciiOnly : Bool) (data : Value)
  | rawObject (data : Value)
  | fromRawObject (value : Value) (expected : Option Value)
  | escapeTable (byte : Option Value)
  | settings
  | newReport (name : Text) (args : List Value)
  | tally (name : Text) (calls : List (List Value))

/-- What an operation returns: a value, or a report that is not raised. -/
inductive Result
  | value (v : Value)
  | report (r : Report)

namespace Operation

/-- A value and a configuration, null where there is none. -/
def arguments (v : Value) (config : Option Value) : Action (Value × Value) := do
  let v ← v.read
  let config ← Action.readOptional config
  return (v, config.getD .null)

def escapeTableEntries : Entries := Escape.table.map fun e => (.int e.1, .str e.2)

/-- The entry of the escape table under a key, null if there is none. -/
def escapeOf (byte : Value) : Except Fault Value :=
  match byte.unhashable? with
  | some kind => .error (.type (.unhashable kind))
  | none => .ok ((escapeTableEntries.find? byte).getD .null)

def settingsValue : Value :=
  .list (Setting.all.map fun s => .list [.str s.constant, .str s.name])

def tallyRow (t : Tally) : Except Fault Value := do
  let mean ← t.mean
  return .list [.str t.name, .int t.calls, t.nanoseconds.value, t.bytes.value, .float mean]

/-- The tally after a call with these arguments: a duration and, unless it is zero, a size. -/
def recordCall (t : Tally) (args : List Value) : Except Fault Tally :=
  let callee := text "HotPathStats.record_call"
  let record (duration size : Value) : Except Fault Tally :=
    match t.record duration size with
    | (.ok (), t) => .ok t
    | (.error f, _) => .error f
  match args with
  | [] => .error (.type (.missingArguments callee [text "duration_ns"]))
  | [duration] => record duration (.int 0)
  | [duration, size] => record duration size
  | args => .error (.type (.excessArguments callee 2 3 (args.length + 1)))

/-- The row of a tally before any call and after each one. -/
def tallyRows (t : Tally) : List (List Value) → Except Fault (List Value)
  | [] => do return [← tallyRow t]
  | call :: rest => do
    let row ← tallyRow t
    return row :: (← tallyRows (← recordCall t call) rest)

def run : Operation → Action Result
  | generate v config => do
    let (v, config) ← arguments v config
    return .value (.str (← generateConfigured v config))
  | prettyGenerate v config => do
    let (v, config) ← arguments v config
    return .value (.str (← JsonWriter.prettyGenerate v config))
  | fastGenerate v config => do
    let (v, config) ← arguments v config
    return .value (.str (← JsonWriter.fastGenerate v config))
  | toJsonRaw data config => do
    let (data, config) ← arguments data config
    return .value (.str (← generateConfigured (← Action.ofExcept (RawObject.wrap data)) config))
  | render v config depth => do
    let (v, config) ← arguments v config
    let depth ← Action.readOptional depth
    let id ← Action.resolve config
    return .value (.str (← JsonWriter.render v id (Value.given? depth)))
  | escape asciiOnly data => do
    let raw ← Action.ofExcept (RawObject.bytesOf (← data.read))
    return .value (.str (← Render.escape asciiOnly raw))
  | rawObject data => do return .value (← Action.ofExcept (RawObject.wrap (← data.read)))
  | fromRawObject v expected => do
    let v ← v.read
    match ← Action.readOptional expected with
    | some .null | none => return .value (← RawObject.unwrap v none)
    | some expected => return .value (← RawObject.unwrap v (some expected))
  | escapeTable none => return .value (.dictionary escapeTableEntries)
  | escapeTable (some byte) => do
    return .value (← Action.ofExcept (escapeOf (← byte.read)))
  | settings => return .value settingsValue
  | newReport name args => do return .report (← Report.make name (← Value.readItems args))
  | tally name calls => do
    let calls ← calls.mapM Value.readItems
    return .value (.list (← Action.ofExcept (tallyRows (.start name) calls)))

end Operation

end JsonWriter
