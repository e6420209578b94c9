import JsonWriter.Render.Machine

/-!
# Values as finite trees

What kinds of object that write themselves a finite value may hold, and induction on a finite value by
what the writer does with it.
-/

namespace JsonWriter

mutual

/-- No container in the value holds itself, and what its objects are that write themselves is as
asked for. Keys do not count: they are shown as a whole. -/
def Value.IsTree (allowed : Extension Value → Prop) : Value → Prop
  | .sequence _ items => Value.AreTrees allowed items
  | .mapping _ entries => Value.EntriesAreTrees allowed entries
  | .selfList _ | .selfDictionary _ => False
  | .derived base => base.IsTree allowed
  | .own _ v => v.IsTree allowed
  | .extension e => allowed e
  | _ => True
termination_by structural v => v

def Value.AreTrees (allowed : Extension Value → Prop) : List Value → Prop
  | [] => True
  | v :: rest => v.IsTree allowed ∧ Value.AreTrees allowed rest
termination_by structural vs => vs

def Value.EntriesAreTrees (allowed : Extension Value → Prop) : List (Value × Value) → Prop
  | [] => True
  | (_, v) :: rest => v.IsTree allowed ∧ Value.EntriesAreTrees allowed rest
termination_by structural es => es

end

namespace Value

variable {allowed : Extension Value → Prop}

/-- Whatever an identity and a derived type do not change depends on the content of a value alone. -/
theorem apply_content.{u} {α : Sort u} (f : Value → α) (hderived : ∀ base, f (derived base) = f base)
    (hown : ∀ i v, f (own i v) = f v) : (v : Value) → f v.content = f v
  | derived base => (apply_content f hderived hown base).trans (hderived base).symm
  | own i v => (apply_content f hderived hown v).trans (hown i v).symm
  | null | bool _ | int _ | float _ | str _ | setting _ | binary _ _ | memory _ | sequence _ _
  | mapping _ _ | selfList _ | selfDictionary _ | outer _ | object _ | type _ | extension _
  | generator _ | described _ => rfl

theorem node_content (v : Value) : v.content.node = v.node :=
  apply_content node (fun _ => rfl) (fun _ _ => rfl) v

theorem isTree_content (v : Value) : v.content.IsTree allowed ↔ v.IsTree allowed :=
  Iff.of_eq (apply_content (IsTree allowed) (fun _ => rfl) (fun _ _ => rfl) v)

theorem container?_of_content {v w : Value} (h : w.content = v.content) :
    Render.container? w = Render.container? v := by
  rw [Render.container?, Render.container?, ← node_content w, h, node_content]

theorem allowed_of_node {e : Extension Value} : (v : Value) → v.IsTree allowed →
    v.node = .extension e → allowed e
  | derived base, h, he => allowed_of_node base h he
  | own _ v, h, he => allowed_of_node v h he
  | extension _, h, he => by
    rw [node, Node.extension.injEq] at he
    exact he ▸ h
  | null, _, he | bool _, _, he | int _, _, he | float _, _, he | str _, _, he | setting _, _, he
  | binary _ _, _, he | memory _, _, he | sequence _ _, _, he | mapping _ _, _, he
  | selfList _, _, he | selfDictionary _, _, he | outer _, _, he | object _, _, he | type _, _, he
  | generator _, _, he | described _, _, he => by simp [node] at he

mutual

theorem IsTree.mono {allowed' : Extension Value → Prop} (hsub : ∀ e, allowed e → allowed' e) :
    (v : Value) → v.IsTree allowed → v.IsTree allowed'
  | sequence _ items, h => AreTrees.mono hsub items h
  | mapping _ entries, h => EntriesAreTrees.mono hsub entries h
  | derived base, h => IsTree.mono hsub base h
  | own _ v, h => IsTree.mono hsub v h
  | extension e, h => hsub e h
  | null, _ | bool _, _ | int _, _ | float _, _ | str _, _ | setting _, _ | binary _ _, _
  | memory _, _ | outer _, _ | object _, _ | type _, _ | generator _, _ | described _, _ => trivial

theorem AreTrees.mono {allowed' : Extension Value → Prop} (hsub : ∀ e, allowed e → allowed' e) :
    (vs : List Value) → AreTrees allowed vs → AreTrees allowed' vs
  | [], _ => trivial
  | v :: rest, h => ⟨IsTree.mono hsub v h.1, AreTrees.mono hsub rest h.2⟩

theorem EntriesAreTrees.mono {allowed' : Extension Value → Prop}
    (hsub : ∀ e, allowed e → allowed' e) :
    (es : List (Value × Value)) → EntriesAreTrees allowed es → EntriesAreTrees allowed' es
  | [], _ => trivial
  | (_, v) :: rest, h => ⟨IsTree.mono hsub v h.1, EntriesAreTrees.mono hsub rest h.2⟩

end

/-- A value without containers that hold themselves. -/
abbrev IsFinite (v : Value) : Prop := v.IsTree fun _ => True

/-- A finite value without objects that write themselves. -/
abbrev IsNative (v : Value) : Prop := v.IsTree fun _ => False

theorem IsTree.isFinite {v : Value} (h : v.IsTree allowed) : v.IsFinite :=
  IsTree.mono (fun _ _ => trivial) v h

theorem AreTrees.of_mem {w : Value} {vs : List Value} (h : AreTrees allowed vs) (hw : w ∈ vs) :
    w.IsTree allowed := by
  induction hw with
  | head => exact h.1
  | tail _ _ ih => exact ih h.2

theorem EntriesAreTrees.of_mem {e : Value × Value} {es : List (Value × Value)}
    (h : EntriesAreTrees allowed es) (he : e ∈ es) : e.2.IsTree allowed := by
  induction he with
  | head => exact h.1
  | tail _ _ ih => exact ih h.2

theorem areTrees_of_forall {vs : List Value} (h : ∀ w ∈ vs, w.IsTree allowed) :
    AreTrees allowed vs := by
  induction vs with
  | nil => trivial
  | cons w rest ih =>
    obtain ⟨hw, hrest⟩ := List.forall_mem_cons.mp h
    exact ⟨hw, ih hrest⟩

theorem entriesAreTrees_of_forall {es : List (Value × Value)} (h : ∀ e ∈ es, e.2.IsTree allowed) :
    EntriesAreTrees allowed es := by
  induction es with
  | nil => trivial
  | cons e rest ih =>
    obtain ⟨he, hrest⟩ := List.forall_mem_cons.mp h
    exact ⟨he, ih hrest⟩

theorem isTree_rawEntries (kind : BinaryKind) (data : List UInt8) :
    (dictionary (rawEntries kind data)).IsTree allowed := by
  have hbytes : AreTrees allowed (data.map fun b : UInt8 => int b.toNat) := by
    induction data with
    | nil => trivial
    | cons b rest ih => exact ⟨trivial, ih⟩
  exact ⟨trivial, hbytes, trivial⟩

/-- What holds of a value holds of the values in it, and its keys are of some kind. -/
structure Inherited (nodes keyed : Value → Prop) : Prop where
  item : ∀ {v kind items}, nodes v → v.content = .sequence kind items → ∀ w ∈ items, nodes w
  entry : ∀ {v kind entries}, nodes v → v.content = .mapping kind entries →
    ∀ e ∈ entries, keyed e.1 ∧ nodes e.2
  raw : ∀ {v kind data}, nodes v → v.content = .binary kind data →
    nodes (.dictionary (rawEntries kind data))

theorem IsTree.inherited : Inherited (IsTree allowed) fun _ => True where
  item {v} _ _ hv h _ hw := by
    rw [← isTree_content, h] at hv
    exact AreTrees.of_mem hv hw
  entry {v} _ _ hv h _ he := by
    rw [← isTree_content, h] at hv
    exact ⟨trivial, EntriesAreTrees.of_mem hv he⟩
  raw _ _ := isTree_rawEntries _ _

section

variable {motive : (v : Value) → v.IsTree allowed → Prop}
  (scalar : ∀ v h, Render.container? v = none → motive v h)
  (sequence : ∀ v h kind items, v.content = .sequence kind items →
    (∀ w ∈ items, ∃ hw, motive w hw) → motive v h)
  (mapping : ∀ v h kind entries, v.content = .mapping kind entries →
    (∀ e ∈ entries, ∃ he, motive e.2 he) → motive v h)
  (binary : ∀ v h kind data, v.content = .binary kind data →
    (∃ hd, motive (.dictionary (rawEntries kind data)) hd) → motive v h)

include scalar sequence mapping

theorem induct_raw (kind : BinaryKind) (data : List UInt8) :
    ∃ h, motive (.dictionary (rawEntries kind data)) h := by
  have hraw : (dictionary (rawEntries kind data)).IsTree allowed := isTree_rawEntries kind data
  obtain ⟨htag, hlist, hend⟩ := hraw
  have hbytes : ∀ w ∈ data.map fun b : UInt8 => int b.toNat, ∃ hw, motive w hw := by
    intro w hw
    obtain ⟨b, _, rfl⟩ := List.mem_map.mp hw
    exact ⟨trivial, scalar _ _ rfl⟩
  refine ⟨⟨htag, hlist, hend⟩, mapping _ _ _ _ rfl fun e he => ?_⟩
  cases he with
  | head => exact ⟨trivial, scalar _ _ rfl⟩
  | tail _ he =>
    cases he with
    | head => exact ⟨hlist, sequence _ _ _ _ rfl hbytes⟩
    | tail _ he => cases he

include binary

set_option linter.unusedSectionVars false in
mutual

theorem induct_within : (v : Value) → v.IsTree allowed → (whole : Value) →
    (h : whole.IsTree allowed) → whole.content = v.content → motive whole h
  | .derived base, hv, whole, h, hw => induct_within base hv whole h hw
  | .own _ v, hv, whole, h, hw => induct_within v hv whole h hw
  | .sequence kind items, hv, whole, h, hw => sequence whole h kind items hw (induct_items items hv)
  | .mapping kind entries, hv, whole, h, hw =>
    mapping whole h kind entries hw (induct_entries entries hv)
  | .binary kind data, _, whole, h, hw =>
    binary whole h kind data hw (induct_raw scalar sequence mapping kind data)
  | .null, _, whole, h, hw | .bool _, _, whole, h, hw | .int _, _, whole, h, hw
  | .float _, _, whole, h, hw | .str _, _, whole, h, hw | .setting _, _, whole, h, hw
  | .memory _, _, whole, h, hw | .outer _, _, whole, h, hw | .object _, _, whole, h, hw
  | .type _, _, whole, h, hw | .extension _, _, whole, h, hw | .generator _, _, whole, h, hw
  | .described _, _, whole, h, hw => scalar whole h (container?_of_content hw)

theorem induct_items : (vs : List Value) → AreTrees allowed vs → ∀ w ∈ vs, ∃ hw, motive w hw
  | v :: rest, hvs, w, hw => by
    cases hw with
    | head => exact ⟨hvs.1, induct_within v hvs.1 v hvs.1 rfl⟩
    | tail _ hw => exact induct_items rest hvs.2 w hw

theorem induct_entries : (es : List (Value × Value)) → EntriesAreTrees allowed es →
    ∀ e ∈ es, ∃ he, motive e.2 he
  | (key, v) :: rest, hes, e, he => by
    cases he with
    | head => exact ⟨hes.1, induct_within v hes.1 v hes.1 rfl⟩
    | tail _ he => exact induct_entries rest hes.2 e he

end

/-- Induction on a finite value by what the writer does with it: a scalar is a token, a container is
set out entry by entry, and bytes are the tagged object that carries them. -/
@[elab_as_elim]
theorem tree_induction (v : Value) (h : v.IsTree allowed) : motive v h :=
  induct_within scalar sequence mapping binary v h v h rfl

end

end Value

end JsonWriter
