import JsonWriter.Session.Basic

/-!
An action runs in a session. What it changed stays changed when it ends in a fault.
-/

namespace JsonWriter

abbrev Action := ExceptT Fault (StateM Session)

namespace Action

/-- The rest of a run after an outcome; a fault ends it. -/
def resume {α β : Type} (r : Except Fault α × Session)
    (rest : α → Session → Except Fault β × Session) : Except Fault β × Session :=
  match r with
  | (.ok a, s) => rest a s
  | (.error e, s) => (.error e, s)

@[simp] theorem resume_ok {α β : Type} (a : α) (s : Session)
    (rest : α → Session → Except Fault β × Session) : resume (.ok a, s) rest = rest a s := rfl

@[simp] theorem resume_error {α β : Type} (e : Fault) (s : Session)
    (rest : α → Session → Except Fault β × Session) : resume (.error e, s) rest = (.error e, s) :=
  rfl

/-- The second action runs in the session that the first leaves. -/
theorem bind_apply {α β : Type} (x : Action α) (k : α → Action β) (s : Session) :
    (x >>= k) s = resume (x s) fun a s => k a s := by
  simp only [bind, ExceptT.bind, ExceptT.mk, ExceptT.bindCont, StateT.bind]
  cases h : x s with
  | mk r s' => cases r <;> rfl

theorem pure_apply {α : Type} (a : α) (s : Session) : (pure a : Action α) s = (.ok a, s) := rfl

def fail {α : Type} (f : Fault) : Action α := fun s => (.error f, s)

def ofExcept {α : Type} (r : Except Fault α) : Action α := fun s => (r, s)

def log (r : Record) : Action Unit := fun s => (.ok (), { s with log := s.log.push r })

/-- Counts the call of a block over so many bytes, whether it returns or fails. -/
def counted {α : Type} (name : Text) (size : Nat) (body : Action α) : Action α := fun s =>
  match body s with
  | (r, s) => (r, (s.record name (.int size)).2)

/-- Counts the call of a block with a size of any type. A size that cannot be counted is the fault. -/
def countedAs {α : Type} (name : Text) (size : Value) (body : Action α) : Action α := fun s =>
  match body s with
  | (r, s) =>
    match s.record name size with
    | (.ok (), s) => (r, s)
    | (.error f, s) => (.error f, s)

/-- Logs the faults of generation that leave a block. -/
def logged {α : Type} (body : Action α) : Action α := fun s =>
  match body s with
  | (.error f, s) =>
    (.error f, if f.IsGeneration then { s with log := s.log.push (.failed f) } else s)
  | (.ok a, s) => (.ok a, s)

/-- The form of a value for messages, if it has one. -/
def literal? (v : Value) : Action (Option Text) := fun s => (.ok (v.literal? s.describe), s)

/-- The form of a value for messages. -/
def literal (v : Value) : Action Text := do
  match ← literal? v with
  | some t => return t
  | none => fail (.value .tooManyDigits)

theorem literal_apply (v : Value) (s : Session) :
    literal v s =
      ((v.literal? s.describe).elim (.error (.value .tooManyDigits)) Except.ok, s) := by
  rw [literal, bind_apply, literal?, resume_ok]
  cases v.literal? s.describe <;> rfl

/-- The form of a value for output. An object must show itself as a text. -/
def shown (v : Value) : Action Text := fun s =>
  match v.content, v.shown? s.describe with
  | _, some t => (.ok t, s)
  | .object shown, none => (.error (.type (.notShownAsText shown.kind)), s)
  | _, none => (.error (.value .tooManyDigits), s)

/-- An identity that no value has yet. -/
def identity : Action Nat := fun s => (.ok s.identities, { s with identities := s.identities + 1 })

/-- Equality of two generators. -/
def equal (i j : Nat) : Action Bool := fun s =>
  match s.compare i j with
  | .ok b => (.ok b, s)
  | .error kind => (.error (.type (.unhashable kind)), s)

/-! ## Generators -/

/-- A number that no generator has stands for one with the initial settings. -/
def generator (id : Nat) : Action Generator := fun s =>
  (.ok ((s.generator? id).getD .initial), s)

def replace (id : Nat) (g : Generator) : Action Unit := fun s =>
  (.ok (), { s with generators := s.generators.setIfInBounds id g })

/-- The number of a new generator. -/
def add (g : Generator) : Action Nat := fun s =>
  (.ok s.generators.size, { s with generators := s.generators.push g })

/-- The outcome of a configuration, with a log record for each key of no use. -/
def configured (r : Except Fault (Generator × List Value)) : Action Generator := do
  let (g, ignored) ← ofExcept r
  ignored.forM fun key => log (.ignored key)
  return g

/-- A new generator with the settings of a mapping. -/
def build (options : Value) : Action Nat := do
  add (← configured (Generator.initial.configure options))

/-- A new generator with the settings of a mapping, or as they are at first. -/
def buildOptional (options : Value) : Action Nat :=
  build (match options with
    | .null => .dictionary []
    | v => v)

def configure (id : Nat) (options : Value) : Action Unit := do
  let g ← generator id
  replace id (← configured (g.configure options))

/-- A new generator like another one. -/
def copy (g : Generator) : Action Nat := do add (← configured g.copy)

/-- The setting that a name stands for. -/
def setting (name : Value) : Action Setting := do
  match name.setting? with
  | some s => return s
  | none => fail (.key (← literal? name))

def get (id : Nat) (name : Value) : Action Value := do
  let s ← setting name
  return (← generator id).get s

def set (id : Nat) (name value : Value) : Action Unit := do
  let s ← setting name
  let g ← generator id
  replace id (← ofExcept (g.set s value))

def slot (name : Text) : Action Nat := fun s =>
  match s.slot? name with
  | some id => (.ok id, s)
  | none => (.error (.key (some (Quoted.ofText name))), s)

def setSlot (name : Text) (id : Nat) : Action Unit := fun s => (.ok (), s.setSlot name id)

end Action

end JsonWriter
