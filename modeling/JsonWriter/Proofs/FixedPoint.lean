import JsonWriter.Proofs.Layout.Related
import JsonWriter.Proofs.Normalized

/-!
# Text that is read and written again

What is read from generated text is written as that text. So generating is a fixed point after one round:
a value, the value made plain and the value that is read back have the same text. Main statement:
`generate_normalized`.
-/

namespace JsonWriter

open Json (Spells SpellsText SpellsItems SpellsMembers)

/-! ## What was read, as a value -/

namespace Json

mutual

/-- What was read as a value, with all members of an object, in order. -/
def plain : Json → Value
  | null => .null
  | bool b => .bool b
  | int n => .int n
  | float x => .float x
  | string t => .str t
  | array items => .list (plainItems items)
  | object members => .mapping .pairs (plainMembers members)
termination_by structural j => j

def plainItems : List Json → List Value
  | [] => []
  | j :: rest => plain j :: plainItems rest
termination_by structural js => js

def plainMembers : List (Text × Json) → List (Value × Value)
  | [] => []
  | (name, j) :: rest => (.str name, plain j) :: plainMembers rest
termination_by structural ms => ms

end

theorem plainItems_eq_map (js : List Json) : plainItems js = js.map plain := by
  induction js with
  | nil => rfl
  | cons j rest ih => rw [plainItems, ih, List.map_cons]

theorem plainMembers_eq_map (ms : List (Text × Json)) :
    plainMembers ms = ms.map fun m => (.str m.1, plain m.2) := by
  induction ms with
  | nil => rfl
  | cons m rest ih => rw [plainMembers, ih, List.map_cons]

mutual

theorem isNative_plain : (j : Json) → j.plain.IsNative
  | null | bool _ | int _ | float _ | string _ => trivial
  | array items => areTrees_plainItems items
  | object members => entriesAreTrees_plainMembers members

theorem areTrees_plainItems : (js : List Json) → Value.AreTrees (fun _ => False) (plainItems js)
  | [] => trivial
  | j :: rest => ⟨isNative_plain j, areTrees_plainItems rest⟩

theorem entriesAreTrees_plainMembers :
    (ms : List (Text × Json)) → Value.EntriesAreTrees (fun _ => False) (plainMembers ms)
  | [] => trivial
  | (_, j) :: rest => ⟨isNative_plain j, entriesAreTrees_plainMembers rest⟩

end

/-! ## Names of numbers -/

mutual

/-- Where names of numbers are accepted, all that is read without them is read. -/
theorem Spells.accepting {nan : Bool} {t : Text} {j : Json} : Spells nan t j → Spells true t j
  | .null => .null
  | .bool b => .bool b
  | .number h => .number h
  | .nan _ => .nan rfl
  | .infinity negative _ => .infinity negative rfl
  | .string h => .string h
  | .emptyArray h => .emptyArray h
  | .array h => .array h.accepting
  | .emptyObject h => .emptyObject h
  | .object h => .object h.accepting

theorem SpellsText.accepting {nan : Bool} {t : Text} {j : Json} : SpellsText nan t j → SpellsText true t j
  | .intro hb h ha => .intro hb h.accepting ha

theorem SpellsItems.accepting {nan : Bool} {t : Text} {js : List Json} :
    SpellsItems nan t js → SpellsItems true t js
  | .last h => .last h.accepting
  | .more h hrest => .more h.accepting hrest.accepting

theorem SpellsMembers.accepting {nan : Bool} {t : Text} {ms : List (Text × Json)} :
    SpellsMembers nan t ms → SpellsMembers true t ms
  | .last hkey h => .last hkey h.accepting
  | .more hkey h hrest => .more hkey h.accepting hrest.accepting

end

end Json

/-! ## Layouts that are repeated -/

namespace Render

open Generator (Format)

section

variable {f : Format} {s : Session} {extend : Extender} {v depth : Value}

theorem quoted_repeats (asciiOnly : Bool) (t shown shown' : Text) (s s' : Session) :
    Extends (quoted asciiOnly t shown s).1 (quoted asciiOnly t shown' s').1 := by
  intro q hq
  rw [quoted_eq] at hq ⊢
  split at hq
  · next ht => rw [if_pos ht, hq]
  · cases hq

/-- A key and its name are written alike. -/
theorem label_repeats {key : Value} {name : Text} (h : key.keyText? s.describe = some name) :
    Extends (label f key s).1 (label f (.str name) s).1 := by
  have hname : Value.keyText? s.describe (.str name) = some name := rfl
  rw [label_of_keyText? h, label_of_keyText? hname]
  exact quoted_repeats f.asciiOnly name _ _ s s

/-- NaN has one name, whatever its bits. -/
theorem float_nan (f : Format) {x : Binary64} (hx : x.IsNan) : float f .nan = float f x := by
  have hfinite : ¬ x.IsFinite := fun h => h hx.1
  have hnan : Binary64.nan.IsNan := by decide
  have hnan' : ¬ Binary64.nan.IsFinite := fun h => h hnan.1
  simp only [float, if_pos hx, if_pos hnan, if_neg hfinite, if_neg hnan']

/-- A scalar and what it is to a reader are written alike. -/
theorem leaf_repeats {j : Json} (h : v.scalar? s.describe = some j) :
    container? j.plain = none ∧ Extends (leaf extend f v depth s).1 (leaf extend f j.plain depth s).1 := by
  unfold Value.scalar? at h
  cases hnode : v.node with
  | null | bool _ | int _ =>
    rw [hnode] at h
    obtain rfl := Option.some.inj h
    rw [leaf, hnode]
    exact ⟨rfl, fun _ h => h⟩
  | float x =>
    rw [hnode] at h
    obtain rfl := Option.some.inj h
    rw [leaf, hnode]
    refine ⟨rfl, fun t ht => ?_⟩
    by_cases hx : x.IsNan
    · rw [if_pos hx]
      change (float f .nan s).1 = .ok t
      rwa [float_nan f hx]
    · rw [if_neg hx]
      exact ht
  | str t =>
    rw [hnode] at h
    obtain rfl := Option.some.inj h
    rw [leaf, hnode]
    exact ⟨rfl, quoted_repeats f.asciiOnly t _ _ s s⟩
  | other =>
    rw [hnode] at h
    obtain ⟨t, ht, rfl⟩ := Option.map_eq_some_iff.mp h
    rw [leaf_of_shown? hnode ht]
    exact ⟨rfl, quoted_repeats f.asciiOnly t _ _ s s⟩
  | array _ | object _ | extension _ =>
    rw [hnode] at h
    cases h

/-- A value and what it is to a reader have the same layout, if there is one. -/
theorem layOut_repeats {f : Format} {s : Session} {v : Value} (hv : v.IsNative) (j : Json)
    (h : v.normal? s.describe = some j) (depth : Value) :
    Extends (layOut (.outcome f s) f depth v) (layOut (.outcome f s) f depth j.plain) := by
  induction v, hv using Value.tree_induction generalizing j depth with
  | scalar v hv hscalar =>
    rw [Value.normal?_of_scalar _ hscalar] at h
    obtain ⟨hplain, hleaf⟩ := leaf_repeats h
    rw [layOut_of_scalar _ _ _ hscalar, layOut_of_scalar _ _ _ hplain]
    exact isSequential_extends.token hleaf
  | sequence v hv kind items hcontent ih =>
    rw [Value.normal?_of_sequence _ hcontent, Option.map_eq_some_iff] at h
    obtain ⟨js, hjs, rfl⟩ := h
    have hitems := (List.forall₂_and_left _ _).mpr ⟨fun w hw => (ih w hw).2, forall₂_of_mapM hjs⟩
    rw [layOut_of_sequence _ _ _ hcontent, Json.plain, Json.plainItems_eq_map, Value.list,
      layOut_of_sequence _ _ _ rfl]
    refine isSequential_extends.block (isSequential_extends.refl _) (fun inner => ?_) .array
    rw [List.forall₂_map_left_iff, List.forall₂_map_right_iff, List.forall₂_map_right_iff]
    exact hitems.imp fun w j h => h.1 j h.2 inner.value
  | mapping v hv kind entries hcontent ih =>
    rw [Value.normal?_of_mapping _ hcontent, Option.map_eq_some_iff] at h
    obtain ⟨ms, hms, rfl⟩ := h
    have hentries := (List.forall₂_and_left _ _).mpr ⟨fun e he => (ih e he).2, forall₂_of_mapM hms⟩
    rw [layOut_of_mapping _ _ _ hcontent, Json.plain, Json.plainMembers_eq_map,
      layOut_of_mapping _ _ _ rfl]
    refine isSequential_extends.block (isSequential_extends.refl _) (fun inner => ?_) .object
    rw [List.forall₂_map_left_iff, List.forall₂_map_right_iff, List.forall₂_map_right_iff]
    refine hentries.imp fun e m h => ?_
    obtain ⟨he, hm⟩ := h
    simp only [Value.normalMember?, Option.bind_eq_bind, Option.bind_eq_some_iff, pure] at hm
    obtain ⟨name, hname, j, hj, hm⟩ := hm
    obtain rfl := Option.some.inj hm
    exact isSequential_extends.pair (label_repeats hname) (he j hj inner.value)
  | binary v hv kind data hcontent ih =>
    rw [Value.normal?_of_binary _ hcontent] at h
    rw [layOut_of_binary _ _ _ hcontent]
    exact ih.2 j h depth

end

end Render

/-! ## Generating again -/

/-- What is read from text that was generated between blanks, with all members of each object and names of
numbers accepted, is written as that text. -/
theorem generate_plain {v : Value} (hv : v.IsNative) {s : Session} {id : Nat} {g : Generator}
    (hg : s.generator? id = some g) (hblank : g.HasLayout Json.IsBlank) {t : Text}
    (ht : (generate v id s).1 = .ok t) :
    ∃ j, Json.read? true t = some j ∧ (generate j.plain id s).1 = .ok t := by
  obtain ⟨parts, hparts, hjoin, hcheck⟩ := (generate_eq_ok hv hg).mp ht
  obtain ⟨j, hj, hspells⟩ := Render.layOut_spells hblank.format hv hparts hjoin
  have hagain : Render.layOut (.outcome g.format s) g.format g.depth j.plain = .ok parts :=
    Render.layOut_repeats hv j hj g.depth parts hparts
  exact ⟨j, Json.read?_of_spells hspells.accepting.spellsText,
    (generate_eq_ok j.isNative_plain hg).mpr ⟨parts, hagain, hjoin, hcheck⟩⟩

/-- A value without objects that write themselves and the value made plain come to the same text or to the
same fault. With blanks between the tokens what is read back from the text is written as that text
again. -/
theorem generate_normalized {v : Value} (hv : v.IsNative) {s : Session} {id : Nat} {g : Generator}
    (hg : s.generator? id = some g) :
    (generate (v.normalized s.describe) id s).1 = (generate v id s).1 ∧
      (g.HasLayout Json.IsBlank → ∀ t, (generate v id s).1 = .ok t →
        ∃ j, Json.read? true t = some j ∧ (generate j.plain id s).1 = .ok t) := by
  refine ⟨?_, fun hblank t ht => generate_plain hv hg hblank ht⟩
  rw [generate_outcome hv hg, generate_outcome (hv.normalized s.describe) hg,
    Render.layOut_normalized g.format s hv]

/-- A tuple with a view whose keys are a number, a truth value and a type, an object of its own, bytes, and
NaN with a sign. -/
def variedSample : Value :=
  .sequence .tuple
    [.mapping .view [(.int 7, .bool true), (.bool true, .sequence .tuple []),
        (.type (text "int"), .float ⟨0xFFF8000000000001⟩)],
      .own 3 (.object (.derived (.str (text "thing")))), .derived (.binary .bytes [1])]

def plainVariedSample : Value :=
  .list
    [.mapping .pairs [(.str (text "7"), .bool true), (.str (text "true"), .list []),
        (.str (text "<class 'int'>"), .float ⟨0xFFF8000000000001⟩)],
      .derived (.str (text "thing")),
      .dictionary [(.str (text "json_class"), .str (text "bytes")), (.str (text "raw"), .list [.int 1])]]

def variedText : Text :=
  text "[\x7b\n\t\t\"7\": true,\n\t\t\"true\": [],\n\t\t\"<class 'int'>\": NaN\n\t\x7d,\"thing\"," ++
    text "\x7b\n\t\t\"json_class\": \"bytes\",\n\t\t\"raw\": [1]\n\t\x7d]"

theorem generate_variedSample :
    let s := { Session.initial true with generators := #[spacedGenerator] }
    variedSample.IsNative ∧ spacedGenerator.HasLayout Json.IsBlank ∧
      variedSample.normalized s.describe = plainVariedSample ∧
      (generate variedSample 0 s).1 = .ok variedText ∧
      (generate plainVariedSample 0 s).1 = .ok variedText ∧
      ∃ j, Json.read? true variedText = some j ∧ (generate j.plain 0 s).1 = .ok variedText := by
  intro s
  have hv : variedSample.IsNative :=
    ⟨⟨trivial, trivial, trivial, trivial⟩, trivial, trivial, trivial⟩
  have hg : s.generator? 0 = some spacedGenerator := rfl
  have hseven : (Value.int 7).asKey s.describe = .str (text "7") := by
    have hdigits : (Value.int 7).shown? s.describe = some (text "7") := by decide +kernel
    rw [Value.asKey, Value.asText?, hdigits]
    all_goals simp [Value.text?, Value.content]
  have hplain : variedSample.normalized s.describe = plainVariedSample := by
    simp only [Value.normalized, variedSample, Value.normalizedAs, Value.normalizedItems,
      Value.normalizedEntries, hseven]
    rfl
  have hblank : spacedGenerator.HasLayout Json.IsBlank := by decide +kernel
  have ht : (generate variedSample 0 s).1 = .ok variedText := by
    rw [generate_outcome hv hg]
    decide +kernel
  obtain ⟨hnormalized, hagain⟩ := generate_normalized hv hg
  rw [hplain, ht] at hnormalized
  exact ⟨hv, hblank, hplain, ht, hnormalized, hagain hblank variedText ht⟩

end JsonWriter
