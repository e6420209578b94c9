import JsonWriter.Proofs.Layout.Parts

/-!
# What is done to generate

What is done to generate text is put together from a few primitive actions, the building of generators
among them. A property that these have is one of reading and of all that comes before an object that writes
itself renders or generates in turn. If it is kept where faults are logged it is one of generating. Main
statements: `Reading.read`, `Preparing.print`, `Preparing.prepare` and `Generating.generateConfigured`.
-/

namespace JsonWriter

/-! ## Objects that write themselves -/

namespace Extension

/-- Makes the generator that an object at a depth is handed. -/
def hand (g : Generator) (depth : Value) : Action Nat := do
  let id ← Action.copy g
  Action.replace id ((← Action.generator id).put .depth depth)
  return id

/-- The text that an object returned. -/
def returned (e : Extension Value) (result : Value) : Except Fault Text :=
  match result.text? with
  | some t => .ok t
  | none => .error (.encoding (.notText e.kind result.kind))

theorem ofExcept_returned (e : Extension Value) (result : Value) :
    Action.ofExcept (e.returned result) =
      match result.text? with
      | some t => pure t
      | none => Action.fail (.encoding (.notText e.kind result.kind)) := by
  unfold returned
  cases result.text? <;> rfl

/-- What an object has left to do when it has read its fields: to return a value, or to render or generate
one with a generator. -/
inductive Plan
  | answer (v : Value)
  | render (v : Value) (id : Nat) (depth : Option Value)
  | generate (v : Value) (id : Nat)

/-- What an object does with the generator that it is handed before it renders or generates. -/
def plan (id : Nat) : Extension Value → Action Plan
  | literal v => .answer <$> v.read
  | point x y => do
    let x ← x.read
    let y ← y.read
    return .generate (.dictionary [(.str (text "x"), x), (.str (text "y"), y)]) id
  | depthText => do return .answer (.str (← Action.shown (← Action.generator id).depth))
  | stateText => do return .answer (.str (← Action.literal (.generator id)))
  | delegate v depth => do
    let v ← v.read
    let depth ← Action.readOptional depth
    return .render v id (Value.given? depth)
  | reconfigured v config => do
    let v ← v.read
    let config ← Action.readOptional config
    return .generate v (← Action.resolve (config.getD .null))
  | mutator settings v => do
    settings.forM fun (name, value) => do
      let name ← name.read
      Action.set id name (← value.read)
    return .generate (← v.read) id
  | capture slot v => do
    Action.setSlot slot id
    .answer <$> v.read
  | raiser error message => Action.fail (.raised error message)

def Plan.perform (render : Renderer) : Plan → Action Value
  | .answer v => return v
  | .render v id depth => .str <$> render v id depth
  | .generate v id => .str <$> generateWith render v id

/-- An object carries out its plan. -/
theorem call_eq (render : Renderer) (id : Nat) (e : Extension Value) :
    e.call render id = (do (← e.plan id).perform render) := by
  cases e with
  | raiser error message => rfl
  | _ => simp [call, plan, Plan.perform]

/-- What an object at a depth does before it renders or generates, with the generator that is made for
it. -/
def prepare (g : Generator) (e : Extension Value) (depth : Value) : Action Plan := do
  e.plan (← hand g depth)

theorem writeAt_eq (g : Generator) (level : Nat) (e : Extension Value) (depth : Value) :
    writeAt g (level + 1) e depth = (do
      let plan ← prepare g e depth
      Action.ofExcept (e.returned (← plan.perform (renderAt level)))) := by
  simp only [writeAt, write, prepare, hand, call_eq, bind_assoc, pure_bind]
  exact bind_congr fun _ => bind_congr fun _ => bind_congr fun _ => bind_congr fun _ =>
    bind_congr fun result => (ofExcept_returned e result).symm

end Extension

/-- A value that is an object is rendered as the object writes itself. -/
theorem renderAt_of_extension {v : Value} {e : Extension Value} (h : v.node = .extension e) (level id : Nat)
    (depth : Option Value) :
    renderAt level v id depth = (do
      let g ← Action.generator id
      Action.counted (text "render") 0 (Extension.writeAt g level e (depth.getD g.depth))) := by
  have hscalar : Render.container? v = none := by rw [Render.container?, h]
  rw [renderAt_eq]
  refine bind_congr fun g => funext fun s => ?_
  rw [Render.parts_eq_print, Render.print_leaf hscalar, Render.leaf, h, Action.bind_apply]
  simp only [Action.counted, Action.bind_apply]
  generalize Extension.writeAt g level e (depth.getD g.depth) s = run
  obtain ⟨f | t, s'⟩ := run
  · rfl
  · simp only [Action.resume_ok, Action.pure_apply]
    rw [Action.ofExcept, Render.Part.join_text]

/-- An object that has read its fields has its plan left to carry out. -/
theorem renderAt_of_prepare {v : Value} {e : Extension Value} (h : v.node = .extension e) {s s' : Session}
    {id : Nat} {g : Generator} (hg : s.generator? id = some g) (depth : Option Value)
    {plan : Extension.Plan} (hprepare : e.prepare g (depth.getD g.depth) s = (.ok plan, s'))
    (level : Nat) :
    renderAt (level + 1) v id depth s = Action.counted (text "render") 0
      (do Action.ofExcept (e.returned (← plan.perform (renderAt level)))) s' := by
  rw [renderAt_of_extension h, Action.bind_apply, Action.generator, hg, Option.getD_some,
    Action.resume_ok, Action.counted, Action.counted, Extension.writeAt_eq, Action.bind_apply, hprepare,
    Action.resume_ok]

namespace Action

variable {α β : Type} {x : Action α} {s : Session}

/-! What comes of actions, apart from the sessions that they leave. -/

theorem fst_counted (name : Text) (size : Nat) : (counted name size x s).1 = (x s).1 := rfl

theorem fst_map (g : α → β) : ((g <$> x) s).1 = (x s).1.map g := by
  rw [← bind_pure_comp, bind_apply]
  generalize x s = run
  obtain ⟨f | a, t⟩ := run <;> rfl

theorem fst_bind_ofExcept (g : α → Except Fault β) :
    ((do ofExcept (g (← x)) : Action β) s).1 = (x s).1 >>= g := by
  rw [bind_apply]
  generalize x s = run
  obtain ⟨f | a, t⟩ := run <;> rfl

theorem fst_bind_eq_error {f : Fault} (h : (x s).1 = .error f) (k : α → Action β) :
    ((x >>= k) s).1 = .error f := by
  rw [bind_apply]
  generalize x s = run at h
  obtain ⟨r, t⟩ := run
  obtain rfl : r = .error f := h
  rfl

end Action

/-- What comes of rendering such an object is what comes of its plan, which has to be a text. -/
theorem fst_renderAt_of_prepare {v : Value} {e : Extension Value} (h : v.node = .extension e)
    {s s' : Session} {id : Nat} {g : Generator} (hg : s.generator? id = some g) (depth : Option Value)
    {plan : Extension.Plan} (hprepare : e.prepare g (depth.getD g.depth) s = (.ok plan, s'))
    (level : Nat) :
    (renderAt (level + 1) v id depth s).1 = (plan.perform (renderAt level) s').1 >>= e.returned := by
  rw [renderAt_of_prepare h hg depth hprepare, Action.fst_counted, Action.fst_bind_ofExcept]

/-! ## Putting actions together -/

/-- A property that is kept where actions are put together. -/
structure Action.Sequential (P : (α : Type) → Action α → Prop) : Prop where
  ofExcept {α : Type} (r : Except Fault α) : P α (Action.ofExcept r)
  bind {α β : Type} {x : Action α} {k : α → Action β} : P α x → (∀ a, P β (k a)) → P β (x >>= k)

namespace Action.Sequential

variable {P : (α : Type) → Action α → Prop} (h : Sequential P) {α β : Type}

include h

theorem pure (a : α) : P α (Pure.pure a) := h.ofExcept (.ok a)

theorem fail (f : Fault) : P α (Action.fail f) := h.ofExcept (.error f)

/-- After a fault nothing happens. -/
theorem fail_bind (f : Fault) (k : α → Action β) : P β (Action.fail f >>= k) := h.fail f

theorem map {x : Action α} (g : α → β) (hx : P α x) : P β (g <$> x) := by
  rw [← bind_pure_comp]
  exact h.bind hx fun a => h.pure (g a)

theorem forM {ι : Type} {k : ι → Action PUnit} (hk : ∀ i, P PUnit (k i)) :
    (is : List ι) → P PUnit (is.forM k)
  | [] => h.pure _
  | i :: rest => h.bind (hk i) fun _ => forM hk rest

theorem mapM {ι : Type} {k : ι → Action α} (hk : ∀ i, P α (k i)) : (is : List ι) → P (List α) (is.mapM k)
  | [] => by
    rw [List.mapM_nil]
    exact h.pure _
  | i :: rest => by
    rw [List.mapM_cons]
    exact h.bind (hk i) fun _ => h.bind (mapM hk rest) fun _ => h.pure _

end Action.Sequential

/-! ## Actions without logged blocks -/

/-- A property of the primitive actions by which values are read, and of the building of generators. -/
structure Action.Reading (P : (α : Type) → Action α → Prop) : Prop extends Sequential P where
  literal? (v : Value) : P (Option Text) (Action.literal? v)
  shown (v : Value) : P Text (Action.shown v)
  identity : P Nat Action.identity
  generator (id : Nat) : P Generator (Action.generator id)
  slot (name : Text) : P Nat (Action.slot name)
  build (options : Value) : P Nat (Action.build options)

/-- A property of the primitive actions that come before an object renders or generates. -/
structure Action.Preparing (P : (α : Type) → Action α → Prop) : Prop extends Reading P where
  counted {α : Type} {x : Action α} (name : Text) (size : Nat) : P α x → P α (Action.counted name size x)
  setSlot (name : Text) (id : Nat) : P Unit (Action.setSlot name id)
  hand (g : Generator) (depth : Value) : P Nat (Extension.hand g depth)
  set (id : Nat) (name value : Value) : P Unit (Action.set id name value)

/-- A property that is also kept where faults are logged. -/
structure Action.Generating (P : (α : Type) → Action α → Prop) : Prop extends Preparing P where
  logged {α : Type} {x : Action α} : P α x → P α (Action.logged x)

namespace Action.Reading

variable {P : (α : Type) → Action α → Prop} (h : Reading P)

include h

theorem literal (v : Value) : P Text (Action.literal v) := by
  refine h.bind (h.literal? v) fun t => ?_
  cases t with
  | some t => exact h.pure t
  | none => exact h.fail _

theorem setting (name : Value) : P Setting (Action.setting name) := by
  unfold Action.setting
  split
  · exact h.pure _
  · exact h.bind (h.literal? name) fun _ => h.fail _

theorem buildOptional (options : Value) : P Nat (Action.buildOptional options) := h.build _

theorem resolve (config : Value) : P Nat (Action.resolve config) := by
  unfold Action.resolve
  split
  · exact h.pure _
  · split
    · exact h.build _
    · exact h.build _

/-! ## Reading -/

theorem identify (v : Value) : P Value (Action.identify v) := by
  unfold Action.identify
  split
  · exact h.bind h.identity fun _ => h.pure _
  · exact h.pure _

theorem convert (into : NativeType) (v : Value) : P Value (Action.convert into v) := by
  cases into with
  | str => exact h.bind (h.shown v) fun _ => h.pure _
  | int | float | list | tuple | dictionary | binary kind =>
    exact h.bind (h.ofExcept _) fun _ => h.pure _

mutual

theorem read : (v : Value) → P Value v.read
  | .sequence kind items => h.bind (readItems items) fun _ => h.identify _
  | .mapping .pairs entries => h.bind (readEntries entries) fun _ => h.identify _
  | .mapping .dictionary entries => h.bind (readEntries entries) fun _ => by
    split
    · exact h.identify _
    · exact h.fail _
  | .mapping .view entries => h.bind (readEntries entries) fun _ => by
    split
    · exact h.identify _
    · exact h.fail _
  | .derived base => h.bind (read base) fun _ => h.pure _
  | .object shown => h.bind (read shown) fun _ => h.identify _
  | .described d => readDescription d
  | .null | .bool _ | .int _ | .float _ | .str _ | .setting _ | .binary _ _ | .memory _
  | .selfList _ | .selfDictionary _ | .outer _ | .own _ _ | .type _ | .extension _ | .generator _ =>
    h.identify _
termination_by structural v => v

theorem readItems : (vs : List Value) → P (List Value) (Value.readItems vs)
  | [] => h.pure _
  | v :: rest => h.bind (read v) fun _ => h.bind (readItems rest) fun _ => h.pure _
termination_by structural vs => vs

theorem readEntries : (es : List (Value × Value)) → P Entries (Value.readEntries es)
  | [] => h.pure _
  | (key, v) :: rest => h.bind (read key) fun _ => h.bind (read v) fun _ =>
    h.bind (readEntries rest) fun _ => h.pure _
termination_by structural es => es

theorem readDescription : (d : Description Value) → P Value (Value.readDescription d)
  | .slot name => h.bind (h.slot name) fun _ => h.pure _
  | .fresh options => h.bind (read options) fun _ => h.bind (h.buildOptional _) fun _ => h.pure _
  | .repeated v _ => h.bind (read v) fun _ => h.bind (h.ofExcept _) fun _ => h.identify _
  | .derived into v => h.bind (read v) fun _ => h.bind (h.convert into _) fun _ =>
    h.bind (h.identify _) fun _ => h.pure _
termination_by structural d => d

end

theorem readOptional : (v : Option Value) → P (Option Value) (Action.readOptional v)
  | none => h.pure _
  | some v => h.bind (h.read v) fun _ => h.pure _

end Action.Reading

namespace Action.Preparing

variable {P : (α : Type) → Action α → Prop} (h : Preparing P)

include h

/-! ## Writing -/

section

open Generator (Format)

theorem quoted (asciiOnly : Bool) (t shown : Text) : P Text (Render.quoted asciiOnly t shown) := by
  unfold Render.quoted
  split
  · exact h.fail _
  · exact h.bind (h.counted _ _ (h.ofExcept _)) fun _ => h.pure _

theorem label (f : Format) (key : Value) : P Text (Render.label f key) :=
  Render.label_induction h.quoted (fun _ hk => h.bind (h.shown key) hk) f

theorem lead (f : Format) (fr : Render.Frame) (key? : Option Value) :
    P (List Render.Part) (Render.lead f fr key?) := by
  refine h.bind (h.ofExcept (Render.separator f fr)) fun _ => ?_
  cases key? with
  | none => exact h.pure _
  | some key =>
    have hmember : P (List Render.Part) (Render.member f key) :=
      h.bind (h.label f key) fun _ => h.bind (h.ofExcept f.colon) fun _ => h.pure _
    exact h.bind hmember fun _ => h.pure _

variable {extend : Render.Extender}

theorem leaf (hextend : ∀ e depth, P Text (extend e depth)) (f : Format) (v depth : Value) :
    P Text (Render.leaf extend f v depth) := by
  cases hnode : v.node with
  | extension e =>
    have hleaf : Render.leaf extend f v depth = extend e depth := by
      rw [Render.leaf, hnode]
    rw [hleaf]
    exact hextend e depth
  | _ =>
    exact Render.leaf_induction h.quoted (fun _ hk => h.bind (h.shown v) hk) h.pure h.fail
      (by simp [hnode]) extend f depth

mutual

theorem print (hextend : ∀ e depth, P Text (extend e depth)) (f : Format) (p : Render.Visit) :
    P (List Render.Part) (Render.print extend f p) := by
  match hv : Render.container? p.value with
  | none =>
    rw [Render.print_leaf hv]
    exact h.bind (h.leaf hextend f _ _) fun _ => h.pure _
  | some (shape, entries) =>
    match he : Render.enter f p.value shape entries p.depth p.room with
    | .error e =>
      rw [Render.print_refused hv he]
      exact h.fail e
    | .ok fr =>
      rw [Render.print_entered hv he]
      exact h.bind (printFrame hextend f fr) fun _ => h.pure _
termination_by Render.steps p.room p.value
decreasing_by
  rw [Render.steps_of_enter hv he]
  omega

theorem printFrame (hextend : ∀ e depth, P Text (extend e depth)) (f : Format) (fr : Render.Frame) :
    P (List Render.Part) (Render.printFrame extend f fr) := by
  match hr : fr.rest with
  | [] =>
    rw [Render.printFrame_closed hr]
    exact h.ofExcept _
  | entry :: rest =>
    rw [Render.printFrame_entry hr]
    exact h.bind (h.lead f fr entry.key?) fun _ => h.bind (print hextend f (fr.visit entry)) fun _ =>
      h.bind (printFrame hextend f (fr.advance rest)) fun _ => h.pure _
termination_by fr.steps
decreasing_by
  all_goals
    simp only [Render.Frame.steps, Render.Frame.visit, Render.Frame.advance, hr, Render.total_cons]
    omega

end

end

theorem plan (id : Nat) (e : Extension Value) : P Extension.Plan (e.plan id) := by
  cases e with
  | literal v => exact h.map _ (h.read v)
  | point x y => exact h.bind (h.read x) fun _ => h.bind (h.read y) fun _ => h.pure _
  | depthText => exact h.bind (h.generator id) fun g => h.bind (h.shown g.depth) fun _ => h.pure _
  | stateText => exact h.bind (h.literal _) fun _ => h.pure _
  | delegate v depth => exact h.bind (h.read v) fun _ => h.bind (h.readOptional depth) fun _ => h.pure _
  | reconfigured v config =>
    exact h.bind (h.read v) fun _ => h.bind (h.readOptional config) fun _ =>
      h.bind (h.resolve _) fun _ => h.pure _
  | mutator settings v =>
    have hset (e : Value × Value) : P PUnit (do
        let name ← e.1.read
        Action.set id name (← e.2.read)) :=
      h.bind (h.read e.1) fun _ => h.bind (h.read e.2) fun _ => h.set id _ _
    exact h.bind (h.forM hset settings) fun _ => h.bind (h.read v) fun _ => h.pure _
  | capture slot v => exact h.bind (h.setSlot slot id) fun _ => h.map _ (h.read v)
  | raiser error message => exact h.fail _

theorem prepare (g : Generator) (e : Extension Value) (depth : Value) :
    P Extension.Plan (e.prepare g depth) := h.bind (h.hand g depth) fun id => h.plan id e

end Action.Preparing

/-! ## Rendering and generating -/

namespace Action.Generating

variable {P : (α : Type) → Action α → Prop} (h : Generating P)

include h

section

variable {render : Renderer} (hrender : ∀ v id depth, P Text (render v id depth))

include hrender

theorem generateWith (v : Value) (id : Nat) : P Text (JsonWriter.generateWith render v id) := by
  refine h.logged (h.counted _ _ (h.bind (hrender v id none) fun _ => ?_))
  exact h.bind (h.generator id) fun _ => h.bind (h.ofExcept _) fun _ => h.pure _

theorem perform (plan : Extension.Plan) : P Value (plan.perform render) := by
  cases plan with
  | answer v => exact h.pure v
  | render v id depth => exact h.map _ (hrender v id depth)
  | generate v id => exact h.map _ (h.generateWith hrender v id)

end

/-- What has to be shown where values are rendered with so many levels of objects, given that it holds of
what these do. -/
theorem renderAt_of_writeAt {level : Nat} (hwrite : ∀ g e depth, P Text (Extension.writeAt g level e depth))
    (v : Value) (id : Nat) (depth : Option Value) : P Text (JsonWriter.renderAt level v id depth) := by
  rw [renderAt_eq]
  refine h.bind (h.generator id) fun g => h.bind (h.counted _ _ ?_) fun _ => h.ofExcept _
  rw [Render.parts_eq_print]
  exact h.print (hwrite g) g.format _

theorem writeAt (level : Nat) (g : Generator) (e : Extension Value) (depth : Value) :
    P Text (Extension.writeAt g level e depth) := by
  -- An object takes one level, and renders with the levels below it.
  induction level generalizing g e depth with
  | zero => exact h.fail _
  | succ level ih =>
    rw [Extension.writeAt_eq]
    exact h.bind (h.prepare g e depth) fun plan =>
      h.bind (h.perform (h.renderAt_of_writeAt ih) plan) fun _ => h.ofExcept _

theorem renderAt (level : Nat) (v : Value) (id : Nat) (depth : Option Value) :
    P Text (JsonWriter.renderAt level v id depth) := h.renderAt_of_writeAt (h.writeAt level) v id depth

theorem render (v : Value) (id : Nat) (depth : Option Value) : P Text (JsonWriter.render v id depth) :=
  h.renderAt v.rank v id depth

theorem generate (v : Value) (id : Nat) : P Text (JsonWriter.generate v id) :=
  h.generateWith h.render v id

theorem generateConfigured (v config : Value) : P Text (JsonWriter.generateConfigured v config) :=
  h.bind (h.resolve config) fun id => h.generate v id

end Action.Generating

end JsonWriter
