import JsonWriter.Session.Action

/-!
Faults as they are reported: a name, a message and the details that go with the name.
-/

namespace JsonWriter

structure Report where
  name : Text
  message : Text
  details : List (Text × Value)

namespace Report

def encoding (message : Text) (document byte : Value) : Report :=
  ⟨text "EncodingError", message, [(text "byte", byte), (text "doc", document)]⟩

def nesting (message : Text) (depth limit : Value) : Report :=
  ⟨text "NestingLimitExceeded", message, [(text "depth", depth), (text "max_nesting", limit)]⟩

def notMapping (message kind : Text) : Report :=
  ⟨text "ConfigurationTypeError", message, [(text "source_type", .str kind)]⟩

end Report

def Document.value : Document → Value
  | text t => .str t
  | bytes raw => .binary .bytes raw

/-- A key that cannot be shown fails once more where it is reported. -/
def Fault.report (f : Fault) : Report :=
  match f with
  | .encoding cause =>
    .encoding f.message cause.document.value
      (cause.byte?.elim .null fun b => .int b.toNat)
  | .nesting depth limit => .nesting f.message depth.value limit.value
  | .notMapping kind => .notMapping f.message kind
  | .key none => ⟨(value .tooManyDigits).name, f.message, []⟩
  | _ => ⟨f.name, f.message, []⟩

/-! ## Reports built directly -/

namespace Report

/-- A number within the range of a byte, or null; true and false are numbers too. -/
def checkByte (v : Value) : Except Fault Unit :=
  match v, v.number? with
  | .null, _ => .ok ()
  | _, some x =>
    if x.isNan ∨ (Number.whole 0).exceeds x ∨ x.exceeds (.whole 0xFF) then
      .error (.value .errorByteRange)
    else .ok ()
  | v, none => .error (v.notAtLeastZero)

/-- Between so many and so many arguments for the construction of a report. -/
def checkArguments (name : Text) (required : List Text) (most : Nat) (args : List Value) :
    Except Fault Unit :=
  let callee := name ++ text ".__init__"
  if args.length < required.length then
    .error (.type (.missingArguments callee (required.drop args.length)))
  else if most < args.length then
    .error (.type (.excessArguments callee (required.length + 1) (most + 1) (args.length + 1)))
  else .ok ()

/-- The text of arguments that nothing else is known of. -/
def messageOf (args : List Value) : Action Text :=
  match args with
  | [] => return []
  | [v] => Action.shown v
  | args => Action.literal (.sequence .tuple args)

/-- The report of an error made by name with the given arguments. Its message is the first of them
as it shows itself, or says what the first of them is. -/
def make (name : Text) (args : List Value) : Action Report := do
  let first := args.getD 0 .null
  let second := args.getD 1 (.str [])
  let third := args.getD 2 .null
  if name = text "EncodingError" then
    Action.ofExcept (checkArguments name [text "msg"] 3 args)
    if first.text?.isNone then Action.fail (.type .messageNotText)
    Action.ofExcept (checkByte third)
    return encoding (← Action.shown first) second third
  else if name = text "NestingLimitExceeded" then
    Action.ofExcept (checkArguments name [text "depth", text "max_nesting"] 2 args)
    let shown ← Action.shown first
    return nesting (text "nesting of " ++ shown ++ text " is too deep") first second
  else if name = text "ConfigurationTypeError" then
    Action.ofExcept (checkArguments name [text "source_type"] 1 args)
    let kind := match first with
      | .type kind => kind
      | v => v.kind
    return notMapping (Fault.notMapping kind).message kind
  else return ⟨name, ← messageOf args, []⟩

end Report

end JsonWriter
