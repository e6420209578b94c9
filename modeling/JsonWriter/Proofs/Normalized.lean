import JsonWriter.Proofs.RoundTrip

/-!
# Values made plain

A value is written as the one made of it by lists in place of tuples, pairs of the texts of keys and of
values in place of mappings, tagged objects in place of bytes, and texts in place of what only shows
itself as one. What is read back from the text is written as that text again. Main statement:
`generate_normalized`.
-/

namespace JsonWriter

/-! ## Normalization -/

namespace Value

section

variable (describe : List Nat → Nat → Option Text)

/-- The text that a value shows itself as, as a value: an object shows the very text it was given. -/
def asText? : Value → Option Value
  | object shown | own _ (object shown) => shown.text?.map fun _ => shown
  | v => (v.shown? describe).map str

/-- The text of a key, if it has one, as a value. -/
def asKey (key : Value) : Value :=
  match key.text? with
  | some _ => key
  | none =>
    match key with
    | bool b => str (text (if b then "true" else "false"))
    | null => str (text "null")
    | key => (key.asText? describe).getD key

/-- A scalar that is of no native type gives way to its text. -/
def normalizedScalar (v : Value) : Value :=
  match v.node with
  | .other => (v.asText? describe).getD v
  | _ => v

mutual

/-- The value made plain, where the value is what `whole` comes to. -/
def normalizedAs (whole : Value) : Value → Value
  | derived base => normalizedAs whole base
  | own _ v => normalizedAs whole v
  | sequence _ items => list (normalizedItems items)
  | mapping _ entries => mapping .pairs (normalizedEntries entries)
  | binary kind data => dictionary (rawEntries kind data)
  | _ => whole.normalizedScalar describe
termination_by structural v => v

def normalizedItems : List Value → List Value
  | [] => []
  | v :: rest => normalizedAs v v :: normalizedItems rest
termination_by structural vs => vs

def normalizedEntries : List (Value × Value) → List (Value × Value)
  | [] => []
  | (key, v) :: rest => (key.asKey describe, normalizedAs v v) :: normalizedEntries rest
termination_by structural es => es

end

/-- The value made plain: tuples are lists, mappings are pairs of the texts of their keys and of their
values, bytes are the tagged object that carries them, and what only shows itself as a text is that
text. -/
def normalized (v : Value) : Value := normalizedAs describe v v

theorem normalizedItems_eq_map (vs : List Value) :
    normalizedItems describe vs = vs.map (normalized describe) := by
  induction vs with
  | nil => rfl
  | cons v rest ih => rw [normalizedItems, ih, List.map_cons, normalized]

theorem normalizedEntries_eq_map (es : List (Value × Value)) :
    normalizedEntries describe es = es.map fun e => (e.1.asKey describe, e.2.normalized describe) := by
  induction es with
  | nil => rfl
  | cons e rest ih => rw [normalizedEntries, ih, List.map_cons, normalized]

theorem normalizedAs_content (whole v : Value) :
    normalizedAs describe whole v.content = normalizedAs describe whole v :=
  apply_content (normalizedAs describe whole) (fun _ => rfl) (fun _ _ => rfl) v

theorem normalizedAs_of_scalar (whole : Value) :
    (v : Value) → Render.container? v = none →
      normalizedAs describe whole v = whole.normalizedScalar describe
  | derived base, h => normalizedAs_of_scalar whole base h
  | own _ v, h => normalizedAs_of_scalar whole v h
  | sequence _ _, h | mapping _ _, h | binary _ _, h => by simp [Render.container?, node] at h
  | null, _ | bool _, _ | int _, _ | float _, _ | str _, _ | setting _, _ | memory _, _
  | selfList _, _ | selfDictionary _, _ | outer _, _ | object _, _ | type _, _ | extension _, _
  | generator _, _ | described _, _ => rfl

variable {v : Value}

theorem normalized_of_scalar (h : Render.container? v = none) :
    v.normalized describe = v.normalizedScalar describe := normalizedAs_of_scalar describe v v h

theorem normalized_of_sequence {kind : SequenceKind} {items : List Value}
    (h : v.content = .sequence kind items) :
    v.normalized describe = list (items.map (normalized describe)) := by
  rw [normalized, ← normalizedAs_content, h, normalizedAs, normalizedItems_eq_map]

theorem normalized_of_mapping {kind : MappingKind} {entries : List (Value × Value)}
    (h : v.content = .mapping kind entries) :
    v.normalized describe =
      mapping .pairs (entries.map fun e => (e.1.asKey describe, e.2.normalized describe)) := by
  rw [normalized, ← normalizedAs_content, h, normalizedAs, normalizedEntries_eq_map]

theorem normalized_of_binary {kind : BinaryKind} {data : List UInt8}
    (h : v.content = .binary kind data) :
    v.normalized describe = dictionary (rawEntries kind data) := by
  rw [normalized, ← normalizedAs_content, h, normalizedAs]

end

/-! ### Texts in place of values -/

theorem content_of_text? {v : Value} {t : Text} (h : v.text? = some t) :
    v.content = str t ∨ ∃ s, v.content = setting s ∧ s.name = t := by
  unfold text? at h
  split at h <;> simp_all

theorem node_of_text? {v : Value} {t : Text} (h : v.text? = some t) : v.node = .str t := by
  obtain hv | ⟨s, hv, rfl⟩ := content_of_text? h
  all_goals rw [← node_content, hv, node]

theorem isTree_of_text? {allowed : Extension Value → Prop} {v : Value} {t : Text}
    (h : v.text? = some t) : v.IsTree allowed := by
  rw [← isTree_content]
  obtain hv | ⟨s, hv, -⟩ := content_of_text? h
  all_goals exact hv ▸ trivial

theorem asText?_eq_some {describe : List Nat → Nat → Option Text} {v w : Value}
    (h : v.asText? describe = some w) : ∃ t, w.text? = some t ∧ v.shown? describe = some t := by
  unfold asText? at h
  split at h
  · obtain ⟨t, ht, rfl⟩ := Option.map_eq_some_iff.mp h
    exact ⟨t, ht, ht⟩
  · obtain ⟨t, ht, rfl⟩ := Option.map_eq_some_iff.mp h
    exact ⟨t, ht, ht⟩
  · obtain ⟨t, ht, rfl⟩ := Option.map_eq_some_iff.mp h
    exact ⟨t, rfl, ht⟩

end Value

namespace Render

open Generator (Format)

section

variable {f : Format} {s : Session} {extend : Extender} {key v w depth : Value} {t : Text}

/-- How a text shows itself in messages counts only where it cannot be quoted. -/
theorem quoted_congr {asciiOnly : Bool} {shown shown' : Text} (h : ¬ t.IsScalar → shown = shown')
    (s s' : Session) : (quoted asciiOnly t shown s).1 = (quoted asciiOnly t shown' s').1 := by
  rw [quoted_eq, quoted_eq]
  by_cases ht : t.IsScalar
  · rw [if_pos ht, if_pos ht]
  · rw [h ht]

theorem label_of_keyText? (h : key.keyText? s.describe = some t) :
    (label f key s).1 = (quoted f.asciiOnly t (shownText key t) s).1 := by
  have hkey := keyText_eq_ok.mpr h
  rw [label, Action.bind_apply]
  generalize keyText key s = run at hkey
  obtain ⟨outcome, s'⟩ := run
  subst hkey
  exact quoted_congr (fun _ => rfl) s' s

theorem leaf_of_text? (h : v.text? = some t) :
    leaf extend f v depth = quoted f.asciiOnly t (shownText v t) := by
  rw [leaf, Value.node_of_text? h]

theorem leaf_of_shown? (hnode : v.node = .other) (h : v.shown? s.describe = some t) :
    (leaf extend f v depth s).1 = (quoted f.asciiOnly t (shownText v t) s).1 := by
  have hshown := shown_eq_ok.mpr h
  simp only [leaf, hnode, Action.bind_apply]
  generalize Action.shown v s = run at hshown
  obtain ⟨outcome, s'⟩ := run
  subst hshown
  exact quoted_congr (fun _ => rfl) s' s

theorem shownText_of_text? (h : v.text? = some t) :
    shownText v t = if v.isDerived then text "sub!" else Quoted.ofText t := by
  unfold shownText
  split
  · rfl
  · cases h
  · cases h
  · next hderived _ _ =>
    have hv : v.isDerived = false := by
      cases v with
      | derived base => exact (hderived base rfl).elim
      | _ => rfl
    rw [hv, if_neg Bool.false_ne_true]

/-- A text shows itself in messages as the value did whose text it is, unless it can be quoted. -/
theorem shownText_asText? {describe : List Nat → Nat → Option Text} (h : v.asText? describe = some w)
    (hw : w.text? = some t) (ht : ¬ t.IsScalar) : shownText w t = shownText v t := by
  rw [shownText_of_text? hw]
  unfold Value.asText? at h
  split at h
  · next shown =>
    obtain ⟨_, -, rfl⟩ := Option.map_eq_some_iff.mp h
    cases shown <;> rfl
  · next shown =>
    obtain ⟨_, -, rfl⟩ := Option.map_eq_some_iff.mp h
    cases shown <;> rfl
  · next hobject hown =>
    obtain ⟨u, hu, rfl⟩ := Option.map_eq_some_iff.mp h
    obtain rfl := Option.some.inj hw
    cases v with
    | derived base =>
      obtain rfl : text "sub!" = u := Option.some.inj hu
      exact absurd (by decide) ht
    | object shown => exact (hobject shown rfl).elim
    | own i inner =>
      cases inner with
      | object shown => exact (hown i shown rfl).elim
      | _ => rfl
    | _ => rfl

/-- A key that has a text of its own, or none at all, is kept. Of any other one its text remains, which
shows itself in messages as it did, unless it can be quoted. -/
theorem asKey_cases (describe : List Nat → Nat → Option Text) (key : Value) :
    key.asKey describe = key ∨
      ∃ t, key.keyText? describe = some t ∧ (key.asKey describe).text? = some t ∧
        (¬ t.IsScalar → shownText (key.asKey describe) t = shownText key t) := by
  unfold Value.asKey
  split
  · exact .inl rfl
  · next htext =>
    split
    · exact .inr ⟨_, rfl, rfl, fun _ => rfl⟩
    · exact .inr ⟨_, rfl, rfl, fun _ => rfl⟩
    · next hbool hnull =>
      simp only [Value.keyText?, htext]
      cases h : key.asText? describe with
      | none => exact .inl rfl
      | some w =>
        obtain ⟨t, hw, hshown⟩ := Value.asText?_eq_some h
        exact .inr ⟨t, hshown, hw, shownText_asText? h hw⟩

/-- A key and its text as a value are written alike. -/
theorem label_asKey (f : Format) (key : Value) (s : Session) :
    (label f (key.asKey s.describe) s).1 = (label f key s).1 := by
  obtain hkey | ⟨t, hname, htext, hshown⟩ := asKey_cases s.describe key
  · rw [hkey]
  · have hname' : (key.asKey s.describe).keyText? s.describe = some t := by
      simp only [Value.keyText?, htext]
    rw [label_of_keyText? hname', label_of_keyText? hname]
    exact quoted_congr hshown s s

/-- A scalar and what is put in its place are written alike. -/
theorem leaf_normalizedScalar (extend : Extender) (f : Format) (v depth : Value) (s : Session) :
    (leaf extend f (v.normalizedScalar s.describe) depth s).1 = (leaf extend f v depth s).1 := by
  unfold Value.normalizedScalar
  split
  · next hnode =>
    cases h : v.asText? s.describe with
    | none => rfl
    | some w =>
      obtain ⟨t, hw, hshown⟩ := Value.asText?_eq_some h
      rw [Option.getD_some, leaf_of_text? hw, leaf_of_shown? hnode hshown]
      exact quoted_congr (shownText_asText? h hw) s s
  · rfl

theorem container?_normalizedScalar {describe : List Nat → Nat → Option Text}
    (h : container? v = none) : container? (v.normalizedScalar describe) = none := by
  unfold Value.normalizedScalar
  split
  · cases htext : v.asText? describe with
    | none => exact h
    | some w =>
      obtain ⟨t, hw, -⟩ := Value.asText?_eq_some htext
      rw [Option.getD_some, container?, Value.node_of_text? hw]
  · exact h

/-- A value and the value made plain have the same layout, or fail in the same way. -/
theorem layOut_normalized (f : Format) (s : Session) {v : Value} (hv : v.IsNative) (depth : Value) :
    layOut (.outcome f s) f depth (v.normalized s.describe) = layOut (.outcome f s) f depth v := by
  induction v, hv using Value.tree_induction generalizing depth with
  | scalar v h hscalar =>
    rw [Value.normalized_of_scalar _ hscalar, layOut_of_scalar _ _ _ hscalar,
      layOut_of_scalar _ _ _ (container?_normalizedScalar hscalar)]
    simp only [token, Scribe.outcome, Scribe.knowing, leaf_normalizedScalar]
  | sequence v h kind items hcontent ih =>
    rw [Value.normalized_of_sequence _ hcontent, layOut_of_sequence _ _ _ hcontent, Value.list,
      layOut_of_sequence _ _ _ rfl]
    congr 1
    funext inner
    rw [List.map_map]
    refine List.map_congr_left fun w hw => ?_
    exact (ih w hw).2 inner.value
  | mapping v h kind entries hcontent ih =>
    rw [Value.normalized_of_mapping _ hcontent, layOut_of_mapping _ _ _ hcontent,
      layOut_of_mapping _ _ _ rfl]
    congr 1
    funext inner
    rw [List.map_map]
    refine List.map_congr_left fun e he => ?_
    rw [Function.comp_apply, (ih e he).2 inner.value]
    simp only [pair, Scribe.outcome, Scribe.knowing, label_asKey]
  | binary v h kind data hcontent ih =>
    rw [Value.normalized_of_binary _ hcontent, layOut_of_binary _ _ _ hcontent]

end

end Render

theorem Value.IsNative.normalizedScalar {v : Value} (hv : v.IsNative)
    (describe : List Nat → Nat → Option Text) : (v.normalizedScalar describe).IsNative := by
  unfold Value.normalizedScalar
  split
  · cases h : v.asText? describe with
    | none => exact hv
    | some w =>
      obtain ⟨t, hw, -⟩ := Value.asText?_eq_some h
      exact Value.isTree_of_text? hw
  · exact hv

theorem Value.IsNative.normalized {v : Value} (hv : v.IsNative)
    (describe : List Nat → Nat → Option Text) : (v.normalized describe).IsNative := by
  induction v, hv using tree_induction with
  | scalar v h hscalar =>
    rw [normalized_of_scalar _ hscalar]
    exact IsNative.normalizedScalar h describe
  | sequence v h kind items hcontent ih =>
    rw [normalized_of_sequence _ hcontent]
    exact areTrees_of_forall (List.forall_mem_map.mpr fun w hw => (ih w hw).2)
  | mapping v h kind entries hcontent ih =>
    rw [normalized_of_mapping _ hcontent]
    exact entriesAreTrees_of_forall (List.forall_mem_map.mpr fun e he => (ih e he).2)
  | binary v h kind data hcontent ih =>
    rw [normalized_of_binary _ hcontent]
    exact isTree_rawEntries kind data

end JsonWriter
