import JsonWriter.Proofs.Decimal.Numerals
import JsonWriter.Proofs.Layout.Settled
import JsonWriter.Proofs.Text.Escape

/-!
# The normal form of a value

What a value is to a reader of JSON: arrays for lists and tuples, objects with a member for each entry
of a mapping, the tagged object for bytes, and a string for whatever only shows itself as a text. Main
statements: `leaf_spells` and `label_spells`, scalars and keys are written as what they are in the
normal form.
-/

namespace JsonWriter

theorem forall₂_of_mapM {α β : Type} {g : α → Option β} {as : List α} {bs : List β}
    (h : as.mapM g = some bs) : List.Forall₂ (fun a b => g a = some b) as bs := by
  induction as generalizing bs with
  | nil =>
    obtain rfl := Option.some.inj h
    exact .nil
  | cons a rest ih =>
    simp only [List.mapM_cons, Option.bind_eq_bind, Option.bind_eq_some_iff, pure] at h
    obtain ⟨b, hb, bs', hbs', h⟩ := h
    obtain rfl := Option.some.inj h
    exact .cons hb (ih hbs')

namespace Value

section

variable (describe : List Nat → Nat → Option Text)

/-- The name of a member with that key. -/
def keyText? (key : Value) : Option Text :=
  match key.text? with
  | some t => some t
  | none =>
    match key with
    | .bool b => some (text (if b then "true" else "false"))
    | .null => some (text "null")
    | key => key.shown? describe

/-- The normal form of a value that is no container and does not write itself. NaN is one number,
whatever its bits. -/
def scalar? (v : Value) : Option Json :=
  match v.node with
  | .null => some .null
  | .bool b => some (.bool b)
  | .str t => some (.string t)
  | .int n => some (.int n)
  | .float x => some (.float (if x.IsNan then .nan else x))
  | .other => (v.shown? describe).map .string
  | .array _ | .object _ | .extension _ => none

mutual

/-- The normal form of a value, where the value is what `whole` comes to. -/
def normalAs? (whole : Value) : Value → Option Json
  | derived base => normalAs? whole base
  | own _ v => normalAs? whole v
  | sequence _ items => (normalItems? items).map .array
  | mapping _ entries => (normalEntries? entries).map .object
  | binary kind data =>
    some (.object [(text "json_class", .string (binary kind data).kind),
      (text "raw", .array (data.map fun b => .int b.toNat))])
  | _ => whole.scalar? describe
termination_by structural v => v

def normalItems? : List Value → Option (List Json)
  | [] => some []
  | v :: rest => do
    let j ← normalAs? v v
    return j :: (← normalItems? rest)
termination_by structural vs => vs

def normalEntries? : List (Value × Value) → Option (List (Text × Json))
  | [] => some []
  | (key, v) :: rest => do
    let name ← key.keyText? describe
    let j ← normalAs? v v
    return (name, j) :: (← normalEntries? rest)
termination_by structural es => es

end

/-- The normal form of a value, given the texts of generators. -/
def normal? (v : Value) : Option Json := normalAs? describe v v

/-- The member that an entry comes to. -/
def normalMember? (e : Value × Value) : Option (Text × Json) := do
  let name ← e.1.keyText? describe
  return (name, ← e.2.normal? describe)

theorem normalItems?_eq_mapM (vs : List Value) :
    normalItems? describe vs = vs.mapM (normal? describe) := by
  induction vs with
  | nil => rfl
  | cons v rest ih =>
    rw [normalItems?, ih, List.mapM_cons]
    rfl

theorem normalEntries?_eq_mapM (es : List (Value × Value)) :
    normalEntries? describe es = es.mapM (normalMember? describe) := by
  induction es with
  | nil => rfl
  | cons e rest ih =>
    rw [normalEntries?, ih, List.mapM_cons]
    simp [normalMember?, normal?, Option.bind_assoc]

theorem normalAs?_content (whole v : Value) :
    normalAs? describe whole v.content = normalAs? describe whole v :=
  apply_content (normalAs? describe whole) (fun _ => rfl) (fun _ _ => rfl) v

theorem normalAs?_of_scalar (whole : Value) :
    (v : Value) → Render.container? v = none → normalAs? describe whole v = whole.scalar? describe
  | derived base, h => normalAs?_of_scalar whole base h
  | own _ v, h => normalAs?_of_scalar whole v h
  | sequence _ _, h | mapping _ _, h | binary _ _, h => by simp [Render.container?, node] at h
  | null, _ | bool _, _ | int _, _ | float _, _ | str _, _ | setting _, _ | memory _, _
  | selfList _, _ | selfDictionary _, _ | outer _, _ | object _, _ | type _, _ | extension _, _
  | generator _, _ | described _, _ => rfl

variable {v : Value}

theorem normal?_of_scalar (h : Render.container? v = none) :
    v.normal? describe = v.scalar? describe := normalAs?_of_scalar describe v v h

theorem normal?_of_sequence {kind : SequenceKind} {items : List Value}
    (h : v.content = .sequence kind items) :
    v.normal? describe = (items.mapM (normal? describe)).map .array := by
  rw [normal?, ← normalAs?_content, h, normalAs?, normalItems?_eq_mapM]

theorem normal?_of_mapping {kind : MappingKind} {entries : List (Value × Value)}
    (h : v.content = .mapping kind entries) :
    v.normal? describe = (entries.mapM (normalMember? describe)).map .object := by
  rw [normal?, ← normalAs?_content, h, normalAs?, normalEntries?_eq_mapM]

/-- Bytes are to a reader what their tagged object is. -/
theorem normal?_of_binary {kind : BinaryKind} {data : List UInt8} (h : v.content = .binary kind data) :
    v.normal? describe = (dictionary (rawEntries kind data)).normal? describe := by
  have hbytes (bytes : List UInt8) : normalItems? describe (bytes.map fun b => int b.toNat) =
      some (bytes.map fun b => .int b.toNat) := by
    induction bytes with
    | nil => rfl
    | cons b rest ih =>
      have hb : normalAs? describe (int b.toNat) (int b.toNat) = some (.int b.toNat) := rfl
      simp [normalItems?, hb, ih]
  rw [normal?, ← normalAs?_content, h]
  simp [normal?, dictionary, rawEntries, list, normalAs?, normalEntries?, hbytes, keyText?, text?,
    content, scalar?, node]

end

end Value

namespace Render

open Generator (Format)
open Json (Spells SpellsString)

/-- A text is quoted by the images of its code points in any session, unless there is a surrogate in
it. -/
theorem quoted_eq (asciiOnly : Bool) (t shown : Text) (s : Session) :
    (quoted asciiOnly t shown s).1 =
      if t.IsScalar then .ok (Json.quote :: t.flatMap (Escape.point asciiOnly) ++ [Json.quote])
      else .error (.encoding (.surrogate t shown)) := by
  by_cases ht : t.IsScalar
  · simp only [quoted, Utf8.encode?, if_pos ht, escape, Escape.escape_encode ht, Action.bind_apply,
      Action.counted, Action.ofExcept, Action.resume_ok, Action.pure_apply]
    rfl
  · simp [quoted, Utf8.encode?, if_neg ht, Action.fail]

/-- A quoted text spells it. -/
theorem quoted_spells {asciiOnly : Bool} {t shown q : Text} {s : Session}
    (h : (quoted asciiOnly t shown s).1 = .ok q) : SpellsString q t := by
  rw [quoted_eq] at h
  split at h
  · next ht => exact Except.ok.inj h ▸ Escape.spellsString_flatMap ht asciiOnly
  · cases h

theorem shown_eq_ok {v : Value} {s : Session} {t : Text} :
    (Action.shown v s).1 = .ok t ↔ v.shown? s.describe = some t := by
  unfold Action.shown
  split <;> simp_all

/-- A key has a text in a session exactly if its member has a name. -/
theorem keyText_eq_ok {key : Value} {s : Session} {t : Text} :
    (keyText key s).1 = .ok t ↔ key.keyText? s.describe = some t := by
  have hpure (u : Text) : ((pure u : Action Text) s).1 = .ok t ↔ some u = some t := by
    simp [Action.pure_apply]
  unfold keyText Value.keyText?
  cases key.text? with
  | some u => exact hpure u
  | none =>
    cases key with
    | bool b => exact hpure _
    | null => exact hpure _
    | _ => exact shown_eq_ok

theorem label_spells {f : Format} {key : Value} {s : Session} {label : Text}
    (h : (Render.label f key s).1 = .ok label) :
    ∃ name, key.keyText? s.describe = some name ∧ SpellsString label name := by
  rw [Render.label, Action.bind_apply] at h
  generalize hrun : keyText key s = run at h
  obtain ⟨_ | name, s'⟩ := run
  · cases h
  · exact ⟨name, keyText_eq_ok.mp (by rw [hrun]), quoted_spells h⟩

theorem number_eq_ok {n : Int} {s : Session} {t : Text} (h : (number n s).1 = .ok t) :
    t = Decimal.ofInt n := by
  have hdigits : ∀ u ∈ Decimal.ofInt? n, u = Decimal.ofInt n := by
    simp only [Decimal.ofInt?]
    split <;> simp
  unfold number at h
  generalize Decimal.ofInt? n = u? at h hdigits
  cases u? with
  | none => cases h
  | some u => exact (Except.ok.inj h).symm.trans (hdigits u rfl)

theorem number_spells {nan : Bool} {n : Int} {s : Session} {t : Text}
    (h : (number n s).1 = .ok t) : Spells nan t (.int n) := by
  obtain ⟨p, hp, htext, hvalue⟩ := exists_parts_ofInt n
  rw [number_eq_ok h, ← htext, ← hvalue]
  exact .number hp

/-- A floating number is written as itself, NaN and the infinities by name where that is allowed. -/
theorem float_spells {f : Format} {x : Binary64} {s : Session} {t : Text}
    (h : (float f x s).1 = .ok t) :
    Spells f.allowNan t (.float (if x.IsNan then .nan else x)) := by
  unfold float at h
  by_cases hx : x.IsFinite
  · have hnan : ¬ x.IsNan := fun hnan => hx hnan.1
    rw [if_pos hx] at h
    rw [if_neg hnan]
    obtain ⟨p, hp, htext, hvalue⟩ := Binary64.exists_parts_finiteText hx
    obtain rfl := Except.ok.inj h
    rw [← htext, ← hvalue]
    exact .number hp
  · rw [if_neg hx] at h
    by_cases hallow : f.allowNan
    · simp only [if_pos hallow] at h
      obtain rfl := Except.ok.inj h
      by_cases hnan : x.IsNan
      · rw [if_pos hnan, if_pos hnan]
        exact .nan hallow
      · rw [if_neg hnan, if_neg hnan]
        have hspells : Spells f.allowNan _ _ := .infinity x.negative hallow
        rwa [← Binary64.eq_infinity hx hnan] at hspells
    · simp only [if_neg hallow] at h
      cases h

/-- The token of a scalar spells its normal form. -/
theorem leaf_spells {extend : Extender} {f : Format} {v depth : Value} {s : Session} {t : Text}
    (hv : v.IsNative) (hscalar : container? v = none) (h : (leaf extend f v depth s).1 = .ok t) :
    ∃ j, v.scalar? s.describe = some j ∧ Spells f.allowNan t j := by
  cases hnode : v.node with
  | null =>
    simp only [leaf, Value.scalar?, hnode] at h ⊢
    exact ⟨_, rfl, Except.ok.inj h ▸ .null⟩
  | bool b =>
    simp only [leaf, Value.scalar?, hnode] at h ⊢
    exact ⟨_, rfl, Except.ok.inj h ▸ .bool b⟩
  | str u =>
    simp only [leaf, Value.scalar?, hnode] at h ⊢
    exact ⟨_, rfl, .string (quoted_spells h)⟩
  | int n =>
    simp only [leaf, Value.scalar?, hnode] at h ⊢
    exact ⟨_, rfl, number_spells h⟩
  | float x =>
    simp only [leaf, Value.scalar?, hnode] at h ⊢
    exact ⟨_, rfl, float_spells h⟩
  | array _ | object _ => simp [container?, hnode] at hscalar
  | extension e => exact (Value.allowed_of_node v hv hnode).elim
  | other =>
    simp only [leaf, Value.scalar?, hnode, Action.bind_apply] at h ⊢
    generalize hrun : Action.shown v s = run at h
    obtain ⟨_ | u, s'⟩ := run
    · cases h
    · rw [shown_eq_ok.mp (by rw [hrun])]
      exact ⟨_, rfl, .string (quoted_spells h)⟩

end Render

end JsonWriter
