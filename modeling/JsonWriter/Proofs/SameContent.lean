import JsonWriter.Proofs.FixedPoint
import JsonWriter.Report
import JsonWriter.Value.Mapping

/-!
# Values of derived types

A value of a type derived from a native one shows itself in its own way and has its own way to write
itself, but what it is to the writer is the native content that it holds. So trees that hold the same
content come to the same text or to the same fault, but for how a text shows itself in a message. Main
statements: `node_eq_tests`, native content is tested for first, and `generate_sameContent`.
-/

namespace JsonWriter

namespace Value

/-- The native type that a value is of, or that its type derives from. A setting is a text. -/
def nativeType? (v : Value) : Option NativeType :=
  match v.content with
  | int _ => some .int
  | float _ => some .float
  | str _ | setting _ => some .str
  | sequence .list _ => some .list
  | sequence .tuple _ => some .tuple
  | mapping .dictionary _ => some .dictionary
  | binary kind _ => some (.binary kind)
  | _ => none

/-! ## The order of the tests -/

/-- What types derive from is native. -/
def IsProper : Value → Prop
  | derived base => base.nativeType?.isSome
  | own _ v => v.IsProper
  | _ => True

section

variable (how : Value → Option (Extension Value))

/-- What a value does that can write itself. A derived type has a way `how` to do so of its own. -/
def writer? : Value → Option (Extension Value)
  | extension e => some e
  | derived base => how base
  | own _ v => v.writer?
  | _ => none

/-- The tests on the type of a value in the order in which the writer makes them, each with what the value
is if it passes. True and false are whole numbers too, and a value of a derived type may write itself:
the test that comes first decides. -/
def tests : List (Value → Option Node) :=
  [fun v => match v.content with
      | binary kind data => some (.object (rawEntries kind data))
      | _ => none,
    fun v => match v.content with
      | null => some .null
      | _ => none,
    fun v => match v.content with
      | bool b => some (.bool b)
      | _ => none,
    fun v => v.text?.map .str,
    fun v => v.int?.map .int,
    fun v => match v.content with
      | float x => some (.float x)
      | _ => none,
    fun v => v.entries?.map .object,
    fun v => match v.content with
      | sequence _ items => some (.array items)
      | selfList items => some (.array (instantiateItems (selfList items) 0 items))
      | _ => none,
    fun v => (v.writer? how).map .extension]

theorem writer?_content : (v : Value) → v.IsProper → v.nativeType? = none →
    v.writer? how = v.content.writer? how
  | derived base, h, hnone => by
    rw [IsProper, show base.nativeType? = none from hnone] at h
    cases h
  | own _ v, h, hnone => writer?_content v h hnone
  | null, _, _ | bool _, _, _ | int _, _, _ | float _, _, _ | str _, _, _ | setting _, _, _
  | binary _ _, _, _ | memory _, _, _ | sequence _ _, _, _ | mapping _ _, _, _ | selfList _, _, _
  | selfDictionary _, _, _ | outer _, _, _ | object _, _, _ | type _, _, _ | extension _, _, _
  | generator _, _, _ | described _, _, _ => rfl

theorem content_ne_wrapped :
    (v : Value) → (∀ base, v.content ≠ derived base) ∧ ∀ i w, v.content ≠ own i w
  | derived base => content_ne_wrapped base
  | own _ v => content_ne_wrapped v
  | null | bool _ | int _ | float _ | str _ | setting _ | binary _ _ | memory _ | sequence _ _
  | mapping _ _ | selfList _ | selfDictionary _ | outer _ | object _ | type _ | extension _
  | generator _ | described _ => ⟨nofun, nofun⟩

/-- What a value is to the writer is what the first test says that it passes, whatever ways to write
themselves there are for derived types: native content comes first. -/
theorem node_eq_tests {v : Value} (h : v.IsProper) :
    v.node = ((tests how).findSome? fun test => test v).getD .other := by
  obtain ⟨hderived, hown⟩ := content_ne_wrapped v
  rw [← node_content]
  cases hcontent : v.content with
  | derived base => exact absurd hcontent (hderived base)
  | own i w => exact absurd hcontent (hown i w)
  | memory _ | outer _ | object _ | type _ | extension _ | generator _ | described _ =>
    -- No test but the last one is for these.
    have hwriter := writer?_content how v h (by rw [nativeType?, hcontent])
    rw [hcontent] at hwriter
    simp [tests, text?, int?, entries?, hcontent, hwriter, writer?, node]
  | null | bool _ | int _ | float _ | str _ | setting _ | binary _ _ | sequence _ _ | mapping _ _
  | selfList _ | selfDictionary _ => simp [tests, text?, int?, entries?, hcontent, node]

end

/-! ## The same content -/

mutual

/-- The values hold the same texts, numbers and bytes in the same places, whatever types derived from
native ones they are of, and are the same in all else. -/
inductive SameContent : Value → Value → Prop
  | same (v : Value) : SameContent v v
  | text {v w : Value} {t : Text} (hv : v.text? = some t) (hw : w.text? = some t) : SameContent v w
  | number {v w : Value} {x : Number} (hv : v.number? = some x) (hw : w.number? = some x) :
    SameContent v w
  | binary {v w : Value} {kind : BinaryKind} {data : List UInt8}
    (hv : v.content = .binary kind data) (hw : w.content = .binary kind data) : SameContent v w
  | sequence {v w : Value} {kind : SequenceKind} {vs ws : List Value}
    (hv : v.content = .sequence kind vs) (hw : w.content = .sequence kind ws)
    (h : SameItems vs ws) : SameContent v w
  | mapping {v w : Value} {kind : MappingKind} {es fs : List (Value × Value)}
    (hv : v.content = .mapping kind es) (hw : w.content = .mapping kind fs)
    (h : SameEntries es fs) : SameContent v w

inductive SameItems : List Value → List Value → Prop
  | nil : SameItems [] []
  | cons {v w : Value} {vs ws : List Value} (h : SameContent v w) (hrest : SameItems vs ws) :
    SameItems (v :: vs) (w :: ws)

/-- A key that is a text gives way to any other that is this text. All other keys stay. -/
inductive SameEntries : List (Value × Value) → List (Value × Value) → Prop
  | nil : SameEntries [] []
  | cons (key : Value) {v w : Value} {es fs : List (Value × Value)} (h : SameContent v w)
    (hrest : SameEntries es fs) : SameEntries ((key, v) :: es) ((key, w) :: fs)
  | named {key key' : Value} {t : Text} (hkey : key.text? = some t) (hkey' : key'.text? = some t)
    {v w : Value} {es fs : List (Value × Value)} (h : SameContent v w) (hrest : SameEntries es fs) :
    SameEntries ((key, v) :: es) ((key', w) :: fs)

end

theorem SameItems.refl (vs : List Value) : SameItems vs vs := by
  induction vs with
  | nil => exact .nil
  | cons v rest ih => exact .cons (.same v) ih

theorem SameEntries.refl (es : List (Value × Value)) : SameEntries es es := by
  induction es with
  | nil => exact .nil
  | cons e rest ih => exact .cons e.1 (.same e.2) ih

/-- Values of native types hold the same content as soon as they are the same but for their identities
and for what derived types add to them. -/
theorem SameContent.of_content {v w : Value} {type : NativeType} (hv : v.nativeType? = some type)
    (h : w.content = v.content) : v.SameContent w := by
  unfold nativeType? at hv
  split at hv <;> rename_i hcontent
  · exact .number (x := .whole _) (by rw [number?, hcontent]) (by rw [number?, h, hcontent])
  · exact .number (x := .floating _) (by rw [number?, hcontent]) (by rw [number?, h, hcontent])
  · exact .text (by rw [text?, hcontent]) (by rw [text?, h, hcontent])
  · exact .text (by rw [text?, hcontent]) (by rw [text?, h, hcontent])
  · exact .sequence hcontent (h.trans hcontent) (.refl _)
  · exact .sequence hcontent (h.trans hcontent) (.refl _)
  · exact .mapping hcontent (h.trans hcontent) (.refl _)
  · exact .binary hcontent (h.trans hcontent)
  · cases hv

/-- A value of a native type can be made one of a derived type anywhere. -/
theorem SameContent.derived {v w : Value} {type : NativeType} (h : v.SameContent w)
    (hw : w.nativeType? = some type) : v.SameContent (.derived w) := by
  cases h with
  | same => exact .of_content hw rfl
  | text hv hw => exact .text hv hw
  | number hv hw => exact .number hv hw
  | binary hv hw => exact .binary hv hw
  | sequence hv hw h => exact .sequence hv hw h
  | mapping hv hw h => exact .mapping hv hw h

theorem content_of_number? {v : Value} {x : Number} (h : v.number? = some x) : v.content = x.value := by
  unfold number? at h
  split at h <;> simp_all [Number.value]
  all_goals subst h; rfl

mutual

/-- What a tree may hold that writes itself stays the same. -/
theorem SameContent.isTree {allowed : Extension Value → Prop} {v w : Value} :
    v.SameContent w → v.IsTree allowed → w.IsTree allowed
  | .same _, h => h
  | .text _ hw, _ => isTree_of_text? hw
  | .number (x := x) _ hw, _ => by
    rw [← isTree_content, content_of_number? hw]
    cases x <;> trivial
  | .binary _ hw, _ => by
    rw [← isTree_content, hw]
    trivial
  | .sequence hv hw hitems, h => by
    rw [← isTree_content, hv] at h
    rw [← isTree_content, hw]
    exact SameItems.areTrees hitems h
  | .mapping hv hw hentries, h => by
    rw [← isTree_content, hv] at h
    rw [← isTree_content, hw]
    exact SameEntries.areTrees hentries h

theorem SameItems.areTrees {allowed : Extension Value → Prop} {vs ws : List Value} :
    SameItems vs ws → AreTrees allowed vs → AreTrees allowed ws
  | .nil, _ => trivial
  | .cons h hrest, ⟨hv, hvs⟩ => ⟨h.isTree hv, hrest.areTrees hvs⟩

theorem SameEntries.areTrees {allowed : Extension Value → Prop} {es fs : List (Value × Value)} :
    SameEntries es fs → EntriesAreTrees allowed es → EntriesAreTrees allowed fs
  | .nil, _ => trivial
  | .cons _ h hrest, ⟨hv, hes⟩ | .named _ _ h hrest, ⟨hv, hes⟩ => ⟨h.isTree hv, hrest.areTrees hes⟩

end

end Value

/-! ## The same fault, but for what is shown of a text -/

/-- The fault without the form in its message of a text that cannot be written. -/
def Fault.unshown : Fault → Fault
  | encoding (.surrogate source _) => encoding (.surrogate source [])
  | e => e

/-- The report of a fault has a name and details that say nothing of the form of a text. -/
theorem Fault.report_unshown (e : Fault) :
    e.unshown.report.name = e.report.name ∧ e.unshown.report.details = e.report.details := by
  unfold unshown
  split <;> exact ⟨rfl, rfl⟩

theorem Fault.eq_of_unshown_eq {e e' : Fault} (h : e'.unshown = e.unshown)
    (hne : ∀ t shown, e ≠ .encoding (.surrogate t shown)) : e' = e := by
  have he : e.unshown = e := by
    unfold unshown
    split
    · exact absurd rfl (hne _ _)
    · rfl
  rw [he] at h
  unfold unshown at h
  split at h
  · exact absurd h.symm (hne _ _)
  · exact h

namespace Render

open Generator (Format)

/-- The outcomes are the same, but for the form of a text in the message of a fault. -/
def Resembles {α : Type} (r r' : Except Fault α) : Prop :=
  r.mapError Fault.unshown = r'.mapError Fault.unshown

theorem isSequential_resembles : IsSequential fun _ => Resembles where
  refl _ := rfl
  bind {_ _ r r' _ _} h hk := by
    cases r with
    | error e =>
      cases r' with
      | error e' => exact congrArg Except.error (Except.error.inj h)
      | ok a' => nomatch h
    | ok a =>
      cases r' with
      | error e' => nomatch h
      | ok a' =>
        obtain rfl : a = a' := Except.ok.inj h
        exact hk a

theorem Resembles.eq_ok_iff {α : Type} {r r' : Except Fault α} (h : Resembles r r') {a : α} :
    r' = .ok a ↔ r = .ok a := by
  cases r with
  | error e =>
    cases r' with
    | error e' => exact iff_of_false nofun nofun
    | ok a' => nomatch h
  | ok a =>
    cases r' with
    | error e' => nomatch h
    | ok a' =>
      obtain rfl : a = a' := Except.ok.inj h
      exact Iff.rfl

theorem Resembles.eq_error {α : Type} {e : Fault} {r' : Except Fault α}
    (h : Resembles (.error e) r') : ∃ e', r' = .error e' ∧ e'.unshown = e.unshown := by
  cases r' with
  | error e' => exact ⟨e', rfl, (Except.error.inj h).symm⟩
  | ok a' => nomatch h

section

variable {f : Format} {s : Session} {extend : Extender} {v w depth : Value}

theorem quoted_resembles (asciiOnly : Bool) (t shown shown' : Text) (s s' : Session) :
    Resembles (quoted asciiOnly t shown s).1 (quoted asciiOnly t shown' s').1 := by
  rw [quoted_eq, quoted_eq]
  split <;> rfl

/-- What a text is written as does not depend on how it shows itself. -/
theorem leaf_text_resembles {t : Text} (hv : v.text? = some t) (hw : w.text? = some t) :
    Resembles (leaf extend f v depth s).1 (leaf extend f w depth s).1 := by
  rw [leaf_of_text? hv, leaf_of_text? hw]
  exact quoted_resembles f.asciiOnly t _ _ s s

theorem label_text_resembles {key key' : Value} {t : Text} (hkey : key.text? = some t)
    (hkey' : key'.text? = some t) : Resembles (label f key s).1 (label f key' s).1 := by
  have hname : key.keyText? s.describe = some t := by simp only [Value.keyText?, hkey]
  have hname' : key'.keyText? s.describe = some t := by simp only [Value.keyText?, hkey']
  rw [label_of_keyText? hname, label_of_keyText? hname']
  exact quoted_resembles f.asciiOnly t _ _ s s

theorem leaf_of_number? {x : Number} (h : v.number? = some x) :
    leaf extend f v depth = leaf extend f x.value depth := by
  have hnode : v.node = x.value.node := by rw [← Value.node_content, Value.content_of_number? h]
  cases x <;> simp only [leaf, hnode, Number.value, Value.node]

theorem container?_of_number? {x : Number} (h : v.number? = some x) : container? v = none := by
  rw [container?, ← Value.node_content, Value.content_of_number? h]
  cases x <;> rfl

theorem container?_of_text? {t : Text} (h : v.text? = some t) : container? v = none := by
  rw [container?, Value.node_of_text? h]

end

mutual

/-- Values with the same content have layouts that resemble each other. -/
theorem layOut_sameContent (f : Format) (s : Session) {v w : Value} : v.SameContent w →
    ∀ depth, Resembles (layOut (.outcome f s) f depth v) (layOut (.outcome f s) f depth w)
  | .same _, _ => rfl
  | .text hv hw, depth => by
    rw [layOut_of_scalar _ f depth (container?_of_text? hv),
      layOut_of_scalar _ f depth (container?_of_text? hw)]
    exact isSequential_resembles.token (leaf_text_resembles hv hw)
  | .number hv hw, depth => by
    rw [layOut_of_scalar _ f depth (container?_of_number? hv),
      layOut_of_scalar _ f depth (container?_of_number? hw)]
    simp only [token, Scribe.outcome, Scribe.knowing, leaf_of_number? hv, leaf_of_number? hw]
    rfl
  | .binary hv hw, depth => by
    rw [layOut_of_binary _ f depth hv, layOut_of_binary _ f depth hw]
    rfl
  | .sequence hv hw h, depth => by
    rw [layOut_of_sequence _ f depth hv, layOut_of_sequence _ f depth hw]
    exact isSequential_resembles.block rfl (fun inner => layOut_sameItems f s h inner.value) .array
  | .mapping hv hw h, depth => by
    rw [layOut_of_mapping _ f depth hv, layOut_of_mapping _ f depth hw]
    exact isSequential_resembles.block rfl (fun inner => layOut_sameEntries f s h inner.value) .object

theorem layOut_sameItems (f : Format) (s : Session) {vs ws : List Value} :
    Value.SameItems vs ws → ∀ depth, List.Forall₂ Resembles (vs.map (layOut (.outcome f s) f depth))
      (ws.map (layOut (.outcome f s) f depth))
  | .nil, _ => .nil
  | .cons h hrest, depth => .cons (layOut_sameContent f s h depth) (layOut_sameItems f s hrest depth)

theorem layOut_sameEntries (f : Format) (s : Session) {es fs : List (Value × Value)} :
    Value.SameEntries es fs → ∀ depth, List.Forall₂ Resembles
      (es.map fun e => pair (.outcome f s) f e.1 (layOut (.outcome f s) f depth e.2))
      (fs.map fun e => pair (.outcome f s) f e.1 (layOut (.outcome f s) f depth e.2))
  | .nil, _ => .nil
  | .cons _ h hrest, depth =>
    .cons (isSequential_resembles.pair rfl (layOut_sameContent f s h depth))
      (layOut_sameEntries f s hrest depth)
  | .named hkey hkey' h hrest, depth =>
    .cons (isSequential_resembles.pair (label_text_resembles hkey hkey') (layOut_sameContent f s h depth))
      (layOut_sameEntries f s hrest depth)

end

end Render

/-! ## Generating -/

theorem generate_resembles {v w : Value} (hv : v.IsNative) (h : v.SameContent w) {s : Session} {id : Nat}
    {g : Generator} (hg : s.generator? id = some g) :
    Render.Resembles (generate v id s).1 (generate w id s).1 := by
  rw [generate_outcome hv hg, generate_outcome (h.isTree hv) hg]
  exact Render.isSequential_resembles.bind (Render.layOut_sameContent g.format s h g.depth) fun _ => rfl

/-- Trees that hold the same content come to the same text, or to a fault of the same name with the same
details, and to the very same fault unless that is a text that cannot be written. No way to write themselves
that derived types have is ever asked for: what a value is to the writer is what the first test says that
it passes, and the tests for native content come before the one for such a way. -/
theorem generate_sameContent {v w : Value} (hv : v.IsNative) (h : v.SameContent w) {s : Session}
    {id : Nat} {g : Generator} (hg : s.generator? id = some g) :
    (∀ t, (generate w id s).1 = .ok t ↔ (generate v id s).1 = .ok t) ∧
      (∀ e, (generate v id s).1 = .error e → ∃ e', (generate w id s).1 = .error e' ∧
        e'.report.name = e.report.name ∧ e'.report.details = e.report.details ∧
        ((∀ t shown, e ≠ .encoding (.surrogate t shown)) → e' = e)) ∧
      ∀ (how : Value → Option (Extension Value)) (u : Value), u.IsProper →
        u.node = ((Value.tests how).findSome? fun test => test u).getD .other := by
  have hresembles := generate_resembles hv h hg
  refine ⟨fun t => hresembles.eq_ok_iff, fun e he => ?_, fun how u hu => Value.node_eq_tests how hu⟩
  rw [he] at hresembles
  obtain ⟨e', he', hunshown⟩ := hresembles.eq_error
  obtain ⟨hname, hdetails⟩ := e.report_unshown
  obtain ⟨hname', hdetails'⟩ := e'.report_unshown
  rw [hunshown] at hname' hdetails'
  exact ⟨e', he', hname'.symm.trans hname, hdetails'.symm.trans hdetails,
    Fault.eq_of_unshown_eq hunshown⟩

/-- Numbers, a text under a key that is none, and bytes in a list. -/
def bareSample : Value :=
  .dictionary
    [(.str (text "k"), .list [.int 7, .float ⟨0x3FE0000000000000⟩, .binary .bytes [1]]),
      (.int 3, .own 1 (.sequence .tuple [.setting .space, .null, .bool true]))]

/-- The same with values of derived types. -/
def wrappedSample : Value :=
  .derived (.own 4 (.dictionary
    [(.derived (.str (text "k")),
        .derived (.list [.derived (.int 7), .derived (.float ⟨0x3FE0000000000000⟩),
          .derived (.binary .bytes [1])])),
      (.int 3, .derived (.own 2 (.sequence .tuple [.derived (.str (text "space")), .null, .bool true])))]))

def bareText : Text :=
  text "\x7b\"k\":[7,0.5,\x7b\"json_class\":\"bytes\",\"raw\":[1]\x7d],\"3\":[\"space\",null,true]\x7d"

theorem generate_wrappedSample :
    let shallow := { Generator.initial with maxNesting := .int 1 }
    let s := { Session.initial true with generators := #[.initial, shallow] }
    bareSample.IsNative ∧ bareSample.SameContent wrappedSample ∧
      (generate wrappedSample 0 s).1 = .ok bareText ∧
      (generate wrappedSample 1 s).1 = .error (.nesting (.whole 2) (.whole 1)) ∧
      ∀ how, wrappedSample.node =
        ((Value.tests how).findSome? fun test => test wrappedSample).getD .other := by
  intro shallow s
  have hv : bareSample.IsNative :=
    ⟨⟨trivial, trivial, trivial, trivial⟩, ⟨trivial, trivial, trivial, trivial⟩, trivial⟩
  have hlist : (Value.list [.int 7, .float ⟨0x3FE0000000000000⟩, .binary .bytes [1]]).SameContent
      (.derived (.list [.derived (.int 7), .derived (.float ⟨0x3FE0000000000000⟩),
        .derived (.binary .bytes [1])])) := by
    refine .derived (.sequence rfl rfl ?_) rfl
    exact .cons (.derived (.same _) rfl) (.cons (.derived (.same _) rfl)
      (.cons (.derived (.same _) rfl) .nil))
  have htuple : (Value.own 1 (.sequence .tuple [.setting .space, .null, .bool true])).SameContent
      (.derived (.own 2 (.sequence .tuple [.derived (.str (text "space")), .null, .bool true]))) := by
    refine .sequence rfl rfl ?_
    exact .cons (.text rfl rfl) (.refl _)
  have h : bareSample.SameContent wrappedSample := by
    refine .mapping rfl rfl ?_
    exact .named rfl rfl hlist (.cons _ htuple .nil)
  have hg : s.generator? 0 = some .initial := rfl
  have hg' : s.generator? 1 = some shallow := rfl
  have ht : (generate bareSample 0 s).1 = .ok bareText := by
    rw [generate_outcome hv hg]
    decide +kernel
  have he : (generate bareSample 1 s).1 = .error (.nesting (.whole 2) (.whole 1)) := by
    rw [generate_outcome hv hg']
    decide +kernel
  obtain ⟨-, hfails, htests⟩ := generate_sameContent hv h hg'
  obtain ⟨e, hwrapped, -, -, heq⟩ := hfails _ he
  exact ⟨hv, h, ((generate_sameContent hv h hg).1 bareText).mpr ht, heq nofun ▸ hwrapped,
    fun how => htests how wrappedSample rfl⟩

end JsonWriter
