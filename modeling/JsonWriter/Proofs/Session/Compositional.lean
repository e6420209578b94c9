import JsonWriter.Script
import JsonWriter.Proofs.Session.Generating

/-!
# What holds of all actions

Everything that the library does is put together from a few primitive actions. A property that these
have, and that is kept where actions are put together, is one of reading, of rendering with objects that
write themselves, of every operation, and of the commands that are not about the counters of calls. Where
generators are only written to by checked changes, a property of these will do for all but direct
assignment. Main statements: `Changing.command`, `Operating.operation` and `Operating.command`, and
`Compositional.operation` and `Compositional.command`.
-/

namespace JsonWriter

/-- A property of reading and of the changes to generators and slots that commands make by themselves. -/
structure Action.Changing (P : (α : Type) → Action α → Prop) : Prop extends Reading P where
  setSlot (name : Text) (id : Nat) : P Unit (Action.setSlot name id)
  equal (i j : Nat) : P Bool (Action.equal i j)
  configure (id : Nat) (options : Value) : P Unit (Action.configure id options)
  copy (g : Generator) : P Nat (Action.copy g)
  set (id : Nat) (name value : Value) : P Unit (Action.set id name value)

/-- A property of generating, and of all changes to generators but direct assignment. -/
structure Action.Operating (P : (α : Type) → Action α → Prop) : Prop
    extends Generating P, Changing P where
  lift (id : Nat) : P Unit (do Action.replace id ((← Action.generator id).put .maxNesting (.int 0)))

/-- A property that the primitive actions have, and that is kept where actions are put together. -/
structure Action.Compositional (P : (α : Type) → Action α → Prop) : Prop extends Sequential P where
  counted {α : Type} {x : Action α} (name : Text) (size : Nat) : P α x → P α (Action.counted name size x)
  logged {α : Type} {x : Action α} : P α x → P α (Action.logged x)
  log (r : Record) : P Unit (Action.log r)
  literal? (v : Value) : P (Option Text) (Action.literal? v)
  shown (v : Value) : P Text (Action.shown v)
  identity : P Nat Action.identity
  equal (i j : Nat) : P Bool (Action.equal i j)
  generator (id : Nat) : P Generator (Action.generator id)
  replace (id : Nat) (g : Generator) : P Unit (Action.replace id g)
  add (g : Generator) : P Nat (Action.add g)
  slot (name : Text) : P Nat (Action.slot name)
  setSlot (name : Text) (id : Nat) : P Unit (Action.setSlot name id)

/-- The command is about the counters of calls. -/
def Command.isAboutCounters : Command → Bool
  | statistics | keepStatistics | keptStatistics | clearStatistics | count _ _ _ => true
  | _ => false

/-- The command assigns nothing directly. -/
def Command.isChecked : Command → Bool
  | assign _ _ => false
  | _ => true

/-- The command may render values. -/
def Command.isRendering : Command → Bool
  | generate _ | call _ | count _ _ _ => true
  | _ => false

/-! ## Changes -/

namespace Action.Changing

variable {P : (α : Type) → Action α → Prop} (h : Changing P)

include h

theorem get (id : Nat) (name : Value) : P Value (Action.get id name) :=
  h.bind (h.setting name) fun _ => h.bind (h.generator id) fun _ => h.pure _

/-- Commands that render nothing make generators, look at them and change them. -/
theorem command {c : Command} (hcounters : c.isAboutCounters = false) (hchecked : c.isChecked = true)
    (hrendering : c.isRendering = false) (slot : Text) : P Result (c.run slot) := by
  have hdone (name : Text) (id : Nat) :
      P Result (do Action.setSlot name id; return Command.done) :=
    h.bind (h.setSlot name id) fun _ => h.pure _
  cases c with
  | new options =>
    exact h.bind (h.readOptional options) fun _ => h.bind (h.buildOptional _) fun id => hdone slot id
  | default => exact h.bind (h.build _) fun id => hdone slot id
  | pretty => exact h.bind (h.build _) fun id => hdone slot id
  | fromConfiguration source =>
    exact h.bind (h.readOptional source) fun _ => h.bind (h.resolve _) fun id => hdone slot id
  | configure options =>
    exact h.bind (h.slot slot) fun id => h.bind (h.read options) fun v =>
      h.bind (h.configure id v) fun _ => h.pure _
  | get name =>
    exact h.bind (h.slot slot) fun id => h.bind (h.read name) fun n =>
      h.bind (h.get id n) fun _ => h.pure _
  | set name value =>
    exact h.bind (h.slot slot) fun id => h.bind (h.read name) fun n => h.bind (h.read value) fun v =>
      h.bind (h.set id n v) fun _ => h.pure _
  | inspect name =>
    exact h.bind (h.slot slot) fun id => h.bind (h.generator id) fun _ =>
      h.bind (h.ofExcept _) fun _ => h.pure _
  | checkNesting depth =>
    exact h.bind (h.slot slot) fun id => h.bind (h.readOptional depth) fun _ =>
      h.bind (h.generator id) fun _ => h.bind (h.ofExcept _) fun _ => h.pure _
  | copy target =>
    exact h.bind (h.slot slot) fun id => h.bind (h.generator id) fun g => h.bind (h.copy g) fun id' =>
      hdone target id'
  | equal other =>
    refine h.bind (h.slot slot) fun id => h.bind (h.read other) fun _ => ?_
    split
    · exact h.bind (h.equal id _) fun _ => h.pure _
    · exact h.pure _
  | same other =>
    refine h.bind (h.slot slot) fun id => h.bind (h.read other) fun _ => ?_
    split
    · exact h.pure _
    · exact h.pure _
  | literal => exact h.bind (h.slot slot) fun _ => h.bind (h.literal _) fun _ => h.pure _
  | hash => exact h.bind (h.slot slot) fun _ => h.fail _
  | assign name value => cases hchecked
  | generate value | call operation => cases hrendering
  | statistics | keepStatistics | keptStatistics | clearStatistics | count name size value =>
    cases hcounters

end Action.Changing

namespace Action.Operating

variable {P : (α : Type) → Action α → Prop} (h : Operating P)

include h

/-! ## Operations -/

theorem merged (entries : Entries) (config : Value) : P Nat (JsonWriter.merged entries config) := by
  refine h.bind (h.build _) fun id => ?_
  split
  · exact h.pure _
  · exact h.bind (h.generator _) fun _ => h.bind (h.configure id _) fun _ => h.pure _
  · exact h.bind (h.configure id _) fun _ => h.pure _

theorem prettyGenerate (v config : Value) : P Text (JsonWriter.prettyGenerate v config) :=
  h.bind (h.merged _ config) fun id => h.generate v id

theorem fastGenerate (v config : Value) : P Text (JsonWriter.fastGenerate v config) := by
  refine h.bind (h.merged [] config) fun id => ?_
  have hlifted := h.bind (h.lift id) fun _ => h.generate v id
  rwa [bind_assoc] at hlifted

/-- What is done while a call is counted by hand. -/
theorem counting (value : Option Value) :
    P Unit (do
      if let some v := value then
        let _ ← JsonWriter.generateConfigured v .null) := by
  split
  · exact h.bind (h.generateConfigured _ _) fun _ => h.pure _
  · exact h.pure _

theorem make (name : Text) (args : List Value) : P Report (Report.make name args) := by
  have hmessage : P Text (Report.messageOf args) := by
    unfold Report.messageOf
    split
    · exact h.pure _
    · exact h.shown _
    · exact h.literal _
  unfold Report.make
  split
  · refine h.bind (h.ofExcept _) fun _ => ?_
    have hrest : P Report (do
        Action.ofExcept (Report.checkByte (args.getD 2 .null))
        return Report.encoding (← Action.shown (args.getD 0 .null)) (args.getD 1 (.str []))
          (args.getD 2 .null)) :=
      h.bind (h.ofExcept _) fun _ => h.bind (h.shown _) fun _ => h.pure _
    simp only
    split
    · exact h.fail_bind _ _
    · exact hrest
  · split
    · exact h.bind (h.ofExcept _) fun _ => h.bind (h.shown _) fun _ => h.pure _
    · split
      · exact h.bind (h.ofExcept _) fun _ => h.pure _
      · exact h.bind hmessage fun _ => h.pure _

theorem bytes (index : Nat) (vs : List Value) : P (List UInt8) (RawObject.bytes index vs) := by
  induction vs generalizing index with
  | nil => exact h.pure _
  | cons v rest ih =>
    rw [RawObject.bytes]
    split
    · exact h.bind (h.literal v) fun _ => h.fail _
    · split
      · exact h.bind (ih (index + 1)) fun _ => h.pure _
      · exact h.bind (h.shown v) fun _ => h.fail _

theorem unwrap (v : Value) (expected : Option Value) : P Value (RawObject.unwrap v expected) := by
  have hbytes (kind : BinaryKind) (items : List Value) :
      P Value (do return Value.binary kind (← RawObject.bytes 0 items)) :=
    h.bind (h.bytes 0 items) fun _ => h.pure _
  unfold RawObject.unwrap
  split
  · simp only
    split
    · split
      · split
        · exact h.bind (h.literal _) fun _ => h.bind (h.literal _) fun _ =>
            h.fail_bind _ _
        · split
          · exact hbytes _ _
          · exact h.fail _
      · split
        · exact hbytes _ _
        · exact h.fail _
    · exact h.bind (h.literal _) fun _ => h.fail _
  · exact h.fail _

theorem arguments (v : Value) (config : Option Value) : P (Value × Value) (Operation.arguments v config) :=
  h.bind (h.read v) fun _ => h.bind (h.readOptional config) fun _ => h.pure _

theorem operation (o : Operation) : P Result o.run := by
  cases o with
  | generate v config =>
    exact h.bind (h.arguments v config) fun a => h.bind (h.generateConfigured a.1 a.2) fun _ => h.pure _
  | prettyGenerate v config =>
    exact h.bind (h.arguments v config) fun a => h.bind (h.prettyGenerate a.1 a.2) fun _ => h.pure _
  | fastGenerate v config =>
    exact h.bind (h.arguments v config) fun a => h.bind (h.fastGenerate a.1 a.2) fun _ => h.pure _
  | toJsonRaw data config =>
    exact h.bind (h.arguments data config) fun a => h.bind (h.ofExcept _) fun v =>
      h.bind (h.generateConfigured v a.2) fun _ => h.pure _
  | render v config depth =>
    exact h.bind (h.arguments v config) fun a => h.bind (h.readOptional depth) fun _ =>
      h.bind (h.resolve a.2) fun id => h.bind (h.render a.1 id _) fun _ => h.pure _
  | escape asciiOnly data =>
    exact h.bind (h.read data) fun _ => h.bind (h.ofExcept _) fun _ =>
      h.bind (h.counted _ _ (h.ofExcept _)) fun _ => h.pure _
  | rawObject data => exact h.bind (h.read data) fun _ => h.bind (h.ofExcept _) fun _ => h.pure _
  | fromRawObject v expected =>
    refine h.bind (h.read v) fun w => h.bind (h.readOptional expected) fun _ => ?_
    split
    · exact h.bind (h.unwrap _ _) fun _ => h.pure _
    · exact h.bind (h.unwrap _ _) fun _ => h.pure _
    · exact h.bind (h.unwrap _ _) fun _ => h.pure _
  | escapeTable byte =>
    cases byte with
    | none => exact h.pure _
    | some byte => exact h.bind (h.read byte) fun _ => h.bind (h.ofExcept _) fun _ => h.pure _
  | settings => exact h.pure _
  | newReport name args => exact h.bind (h.readItems args) fun _ => h.bind (h.make name _) fun _ => h.pure _
  | tally name calls =>
    exact h.bind (h.mapM h.readItems calls) fun _ => h.bind (h.ofExcept _) fun _ => h.pure _

/-- All commands without direct assignment are operations, or make generators, look at them and change
them. -/
theorem command {c : Command} (hcounters : c.isAboutCounters = false) (hchecked : c.isChecked = true)
    (slot : Text) : P Result (c.run slot) := by
  cases hrendering : c.isRendering with
  | false => exact h.toChanging.command hcounters hchecked hrendering slot
  | true =>
    cases c with
    | generate value =>
      exact h.bind (h.slot slot) fun id => h.bind (h.read value) fun v =>
        h.bind (h.generate v id) fun _ => h.pure _
    | call operation => exact h.operation operation
    | count name size value => cases hcounters
    | _ => cases hrendering

end Action.Operating

namespace Action.Compositional

variable {P : (α : Type) → Action α → Prop} (h : Compositional P)

include h

/-! ## Primitive actions alone -/

theorem configured (r : Except Fault (Generator × List Value)) : P Generator (Action.configured r) :=
  h.bind (h.ofExcept r) fun a => h.bind (h.forM (fun _ => h.log _) a.2) fun _ => h.pure a.1

theorem build (options : Value) : P Nat (Action.build options) :=
  h.bind (h.configured _) fun g => h.add g

theorem configure (id : Nat) (options : Value) : P Unit (Action.configure id options) :=
  h.bind (h.generator id) fun _ => h.bind (h.configured _) fun g => h.replace id g

theorem copy (g : Generator) : P Nat (Action.copy g) := h.bind (h.configured _) fun g => h.add g

theorem reading : Reading P := { h with build := h.build }

theorem set (id : Nat) (name value : Value) : P Unit (Action.set id name value) :=
  h.bind (h.reading.setting name) fun _ => h.bind (h.generator id) fun _ =>
    h.bind (h.ofExcept _) fun g => h.replace id g

theorem hand (g : Generator) (depth : Value) : P Nat (Extension.hand g depth) :=
  h.bind (h.copy g) fun id => h.bind (h.generator id) fun _ => h.bind (h.replace id _) fun _ => h.pure id

theorem operating : Operating P :=
  { h with
    build := h.build, hand := h.hand, set := h.set, configure := h.configure, copy := h.copy
    lift := fun id => h.bind (h.generator id) fun _ => h.replace id _ }

theorem readOptional (v : Option Value) : P (Option Value) (Action.readOptional v) :=
  h.reading.readOptional v

theorem counting (value : Option Value) :
    P Unit (do
      if let some v := value then
        let _ ← JsonWriter.generateConfigured v .null) := h.operating.counting value

theorem operation (o : Operation) : P Result o.run := h.operating.operation o

theorem command {c : Command} (hc : c.isAboutCounters = false) (slot : Text) : P Result (c.run slot) := by
  cases hchecked : c.isChecked with
  | true => exact h.operating.command hc hchecked slot
  | false =>
    cases c with
    | assign name value =>
      exact h.bind (h.slot slot) fun id => h.bind (h.reading.read value) fun _ =>
        h.bind (h.generator id) fun _ => h.bind (h.ofExcept _) fun g =>
          h.bind (h.replace id g) fun _ => h.pure _
    | _ => cases hchecked

end Action.Compositional

end JsonWriter
