import JsonWriter.Operation

/-!
Scripts: steps on the generators in named slots, one after the other, whatever the outcome of each.
-/

namespace JsonWriter

/-- What a step does with the slot it is about. -/
inductive Command
  | new (options : Option Value)
  | default
  | pretty
  | fromConfiguration (source : Option Value)
  | configure (options : Value)
  | get (name : Value)
  | set (name value : Value)
  | inspect (name : Text)
  | assign (name : Text) (value : Value)
  | checkNesting (depth : Option Value)
  | copy (target : Text)
  | equal (other : Value)
  | same (other : Value)
  | literal
  | hash
  | generate (value : Value)
  | call (operation : Operation)
  | statistics
  | keepStatistics
  | keptStatistics
  | clearStatistics
  | count (name : Text) (size : Option Value) (value : Option Value)

structure Step where
  slot : Text
  command : Command

/-- The outcome of a step, and the entries of the generator in its slot afterwards. -/
structure Row where
  outcome : Except Report Result
  state : Option Entries

namespace Command

def done : Result := .value .null

def truth (b : Bool) : Result := .value (.bool b)

/-- The counters as rows of key, name, calls and bytes. -/
def statisticsRows (ts : List Tally) : Result :=
  .value (.list (ts.map fun t => .list [.str t.name, .str t.name, .int t.calls, t.bytes.value]))

/-- An attribute of a generator: a setting, or whether nesting is limited at all. -/
def attributeOf (g : Generator) (name : Text) : Except Fault Value :=
  match Setting.ofName? name with
  | some s => .ok (g.get s)
  | none =>
    if name = text "check_circular" then .ok (.bool !(Generator.isUnlimited g.maxNesting))
    else .error (.key (some (Quoted.ofText name)))

/-- Directly assigns an attribute that is a setting. -/
def assignTo (g : Generator) (name : Text) (v : Value) : Except Fault Generator :=
  match Setting.ofName? name with
  | some s => g.assign s v
  | none => .error (.key (some (Quoted.ofText name)))

/-- One more container may open inside one at the depth given, or else the generator's own. -/
def checkNestingOf (g : Generator) (depth : Option Value) : Except Fault Unit :=
  Generator.checkNesting g.maxNesting (depth.getD g.depth)

def run (slot : Text) : Command → Action Result
  | new options => do
    let options ← Action.readOptional options
    Action.setSlot slot (← Action.buildOptional (options.getD .null))
    return done
  | default => do
    Action.setSlot slot (← Action.build (.dictionary []))
    return done
  | pretty => do
    Action.setSlot slot (← Action.build (.dictionary Generator.prettyEntries))
    return done
  | fromConfiguration source => do
    let source ← Action.readOptional source
    Action.setSlot slot (← Action.resolve (source.getD .null))
    return done
  | configure options => do
    let id ← Action.slot slot
    Action.configure id (← options.read)
    return truth true
  | get name => do
    let id ← Action.slot slot
    return .value (← Action.get id (← name.read))
  | set name value => do
    let id ← Action.slot slot
    let name ← name.read
    Action.set id name (← value.read)
    return done
  | inspect name => do
    let id ← Action.slot slot
    return .value (← Action.ofExcept (attributeOf (← Action.generator id) name))
  | assign name value => do
    let id ← Action.slot slot
    let value ← value.read
    Action.replace id (← Action.ofExcept (assignTo (← Action.generator id) name value))
    return done
  | checkNesting depth => do
    let id ← Action.slot slot
    let depth ← Action.readOptional depth
    Action.ofExcept (checkNestingOf (← Action.generator id) (Value.given? depth))
    return done
  | copy target => do
    let id ← Action.slot slot
    Action.setSlot target (← Action.copy (← Action.generator id))
    return done
  | equal other => do
    let id ← Action.slot slot
    match ← other.read with
    | .generator other => return truth (← Action.equal id other)
    | _ => return truth false
  | same other => do
    let id ← Action.slot slot
    match ← other.read with
    | .generator other => return truth (id == other)
    | _ => return truth false
  | literal => do
    let id ← Action.slot slot
    return .value (.str (← Action.literal (.generator id)))
  | hash => do
    let id ← Action.slot slot
    Action.fail (.type (.unhashable (Value.generator id).kind))
  | generate value => do
    let id ← Action.slot slot
    return .value (.str (← JsonWriter.generate (← value.read) id))
  | call operation => operation.run
  | statistics => fun s => (.ok (statisticsRows (s.profile.rows s.profile.snapshot)), s)
  | keepStatistics => fun s => (.ok done, { s with kept := s.profile.snapshot })
  | keptStatistics => fun s => (.ok (statisticsRows (s.profile.rows s.kept)), s)
  | clearStatistics => fun s => (.ok done, { s with profile := s.profile.clear })
  | count name size value => do
    let size ← Action.readOptional size
    let value ← Action.readOptional value
    Action.countedAs name (size.getD (.int 0)) do
      if let some v := value then
        let _ ← generateConfigured v .null
    return truth true

end Command

namespace Step

/-- The row of a step. A fault becomes its outcome and ends nothing. -/
def run (st : Step) : StateM Session Row := fun s =>
  match st.command.run st.slot s with
  | (r, s) =>
    let state := ((s.slot? st.slot).bind s.generator?).map (·.entries)
    (⟨r.mapError (·.report), state⟩, s)

end Step

/-! ## Requests -/

inductive Request
  | operation (o : Operation)
  | script (steps : List Step)

inductive Answer
  | outcome (r : Except Report Result)
  | rows (rs : List Row)

/-- The answer to a request in a new session, and what was logged on the way. -/
def Request.run (profiling : Bool) (r : Request) : Answer × Array Record :=
  match r with
  | operation o =>
    let (r, s) := o.run (Session.initial profiling)
    (.outcome (r.mapError (·.report)), s.log)
  | script steps =>
    let (rows, s) := (steps.mapM Step.run : StateM Session (List Row)) (Session.initial profiling)
    (.rows rows, s.log)

end JsonWriter
