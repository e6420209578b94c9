import JsonWriter.Proofs.Configuration.Sound
import JsonWriter.Session.Action

/-!
# Equal generators

Generators are equal if their settings are, one by one, and each unknown key of one is also one of the
other, with an equal value. Main statement: `equal_iff`.
-/

namespace JsonWriter

theorem Keyed.isDistinct_map {α β : Type} {es : Keyed α} (h : es.IsDistinct) (f : Value → α → β) :
    Keyed.IsDistinct (es.map fun e => (e.1, f e.1 e.2)) :=
  ⟨List.forall_mem_map.mpr h.1, List.pairwise_map.mpr h.2⟩

theorem Keyed.find?_append_of_not_mem {α : Type} {key : Value} {es : Keyed α}
    (h : ∀ e ∈ es, e.1.sameKey key = false) (fs : Keyed α) : find? key (es ++ fs) = find? key fs := by
  have hnone : List.find? (fun e : Value × α => e.1.sameKey key) es = none :=
    List.find?_eq_none.mpr fun e he => by simp [h e he]
  rw [find?, find?, List.find?_append, hnone, Option.none_or]

namespace Value

variable {same : Nat → Nat → Comparison}

/-! ## Values -/

theorem sameScalar_of_int? {v w : Value} {n : Int} (hv : v.int? = some n) (hw : w.int? = some n) :
    sameScalar v w = true := by
  unfold int? at hv hw
  split at hv <;> split at hw <;> simp_all [sameScalar, sameNumber, int?, content]

theorem sameScalar_of_text? {v w : Value} {t : Text} (hv : v.text? = some t) (hw : w.text? = some t) :
    sameScalar v w = true := by
  refine (sameScalar_iff v w).mpr ⟨.text t, ?_, ?_⟩
  · exact scalarForm?_of_contentForm? (contentForm?_of_text? (v.text?_content.trans hv))
  · exact scalarForm?_of_contentForm? (contentForm?_of_text? (w.text?_content.trans hw))

/-- Two values that are the same whole number, truth values included, or the same text. -/
inductive SameToken (v w : Value) : Prop
  | int {n : Int} (hv : v.int? = some n) (hw : w.int? = some n)
  | text {t : Text} (hv : v.text? = some t) (hw : w.text? = some t)

theorem SameToken.symm {v w : Value} (h : SameToken v w) : SameToken w v := by
  cases h with
  | int hv hw => exact .int hw hv
  | text hv hw => exact .text hw hv

theorem int?_of_text? {v : Value} {t : Text} (h : v.text? = some t) : v.int? = none := by
  unfold text? at h
  unfold int?
  split at h <;> simp_all

theorem SameToken.trans {u v w : Value} (h : SameToken u v) (h' : SameToken v w) : SameToken u w := by
  cases h with
  | int hu hv =>
    cases h' with
    | int hv' hw => exact .int hu (hv.symm.trans hv' ▸ hw)
    | text hv' _ => cases hv.symm.trans (int?_of_text? hv')
  | text hu hv =>
    cases h' with
    | int hv' _ => cases hv'.symm.trans (int?_of_text? hv)
    | text hv' hw => exact .text hu (hv.symm.trans hv' ▸ hw)

theorem SameToken.sameScalar {v w : Value} (h : SameToken v w) : Value.sameScalar v w = true := by
  cases h with
  | int hv hw => exact sameScalar_of_int? hv hw
  | text hv hw => exact sameScalar_of_text? hv hw

theorem not_sameToken {v w : Value} (hint : v.int? = none) (htext : v.text? = none) :
    ¬ SameToken v w := by
  rintro (hv | hv)
  · cases hint.symm.trans hv
  · cases htext.symm.trans hv

theorem SameToken.compareIn : (v : Value) → {w : Value} → SameToken v w → (swapped isDerived : Bool) →
    compareIn same swapped isDerived v w = .ok true
  | .own i v, w, h, swapped, isDerived => by
    have hv : SameToken v w := by
      cases h with
      | int hv hw => exact .int hv hw
      | text hv hw => exact .text hv hw
    rw [Value.compareIn]
    split
    · rfl
    · exact hv.compareIn v swapped isDerived
  | .derived v, w, h, swapped, isDerived => by
    have hv : SameToken v w := by
      cases h with
      | int hv hw => exact .int hv hw
      | text hv hw => exact .text hv hw
    exact hv.compareIn v swapped true
  | .null, _, h, _, _ | .bool _, _, h, _, _ | .int _, _, h, _, _ | .float _, _, h, _, _
  | .str _, _, h, _, _ | .setting _, _, h, _, _ | .binary _ _, _, h, _, _ | .memory _, _, h, _, _
  | .selfList _, _, h, _, _ | .selfDictionary _, _, h, _, _ | .outer _, _, h, _, _ | .object _, _, h, _, _
  | .type _, _, h, _, _ | .extension _, _, h, _, _ | .described _, _, h, _, _ =>
    congrArg Except.ok h.sameScalar
  | .sequence _ _, _, h, _, _ | .mapping _ _, _, h, _, _ | .generator _, _, h, _, _ =>
    absurd h (not_sameToken rfl rfl)

/-! ## Dictionaries -/

theorem comparers_eq (swapped : Bool) (es : Entries) : comparers same swapped es =
    es.map fun e => (e.1, fun w => compareIn same swapped false e.2 w) := by
  induction es with
  | nil => rfl
  | cons e rest ih => rw [comparers, ih, List.map_cons]

theorem allM_eq_ok_true {α : Type} {p : α → Comparison} {as : List α} :
    as.allM p = .ok true ↔ ∀ a ∈ as, p a = .ok true := by
  induction as with
  | nil => simp [List.allM, pure, Except.pure]
  | cons a rest ih =>
    rw [List.allM, List.forall_mem_cons, ← ih]
    cases hp : p a with
    | error kind => simp [bind, Except.bind]
    | ok b => cases b <;> simp [bind, Except.bind, pure, Except.pure]

/-- Dictionaries are equal if there are as many keys in both and each key of one is one of the other, with
an equal value. -/
theorem compare_dictionary {es fs : Entries} (hes : Keyed.IsDistinct es) (hfs : Keyed.IsDistinct fs) :
    compare same (.dictionary es) (.dictionary fs) = .ok true ↔ es.length = fs.length ∧
      ∀ e ∈ es, ∃ w, fs.find? e.1 = some w ∧ compare same e.2 w = .ok true := by
  have hfirst : Keyed.dictionary? [] (comparers same false es) = .ok (comparers same false es) := by
    have hdistinct : Keyed.IsDistinct ([] ++ comparers same false es) := by
      rw [comparers_eq, List.nil_append]
      exact Keyed.isDistinct_map hes fun _ v w => compareIn same false false v w
    exact Keyed.dictionary?_of_isDistinct hdistinct
  have hsecond : Keyed.dictionary? [] fs = .ok fs := by
    have hdistinct : Keyed.IsDistinct ([] ++ fs) := hfs
    exact Keyed.dictionary?_of_isDistinct hdistinct
  have hcompare : compare same (.dictionary es) (.dictionary fs) =
      compareLeading (comparers same false es) fs := by
    have hleads : compare same (.dictionary es) (.dictionary fs) = (do
        let first ← Keyed.dictionary? [] (comparers same false es)
        let second ← Keyed.dictionary? [] fs
        compareLeading first second) := rfl
    rw [hleads, hfirst, hsecond]
    rfl
  rw [hcompare, comparers_eq, compareLeading, List.length_map]
  split
  · next hlength => simp [hlength]
  · next hlength =>
    rw [allM_eq_ok_true, List.forall_mem_map, not_not.mp hlength]
    simp only [true_and]
    refine forall₂_congr fun e _ => ?_
    cases fs.find? e.1 with
    | none => simp
    | some w => simp [compare]

end Value

namespace Generator

variable {same : Nat → Nat → Comparison} {g h : Generator}

/-- The generators are equal as mappings, where those that are kept in them compare as given. -/
def Equal (same : Nat → Nat → Comparison) (g h : Generator) : Prop :=
  Value.compare same (.dictionary g.entries) (.dictionary h.entries) = .ok true

theorem find?_name (g : Generator) (t : Setting) : g.entries.find? (.str t.name) = some (g.get t) := by
  cases t <;> rfl

/-- A key that names no setting is looked up among the unknown ones. -/
theorem find?_unknown (g : Generator) {key : Value} (hkey : key.setting? = none) :
    g.entries.find? key = g.unknown.find? key :=
  Keyed.find?_append_of_not_mem (List.forall_mem_map.mpr fun t _ => not_sameKey_name t hkey) _

theorem equal_iff (hg : g.IsSettled) (hh : h.IsSettled) : g.Equal same h ↔
    (∀ t, Value.compare same (g.get t) (h.get t) = .ok true) ∧
      g.unknown.length = h.unknown.length ∧
        ∀ e ∈ g.unknown, ∃ w, h.unknown.find? e.1 = some w ∧ Value.compare same e.2 w = .ok true := by
  have hlength : g.entries.length = h.entries.length ↔ g.unknown.length = h.unknown.length := by
    rw [entries, entries, List.length_append, List.length_append, List.length_map, List.length_map,
      Nat.add_left_cancel_iff]
  have hsettings : (∀ e ∈ Setting.all.map fun t => (Value.str t.name, g.get t),
      ∃ w, h.entries.find? e.1 = some w ∧ Value.compare same e.2 w = .ok true) ↔
        ∀ t, Value.compare same (g.get t) (h.get t) = .ok true := by
    rw [List.forall_mem_map]
    refine forall_congr' fun t => ?_
    simp [find?_name, t.mem_all]
  have hunknown : (∀ e ∈ g.unknown,
      ∃ w, h.entries.find? e.1 = some w ∧ Value.compare same e.2 w = .ok true) ↔
        ∀ e ∈ g.unknown, ∃ w, h.unknown.find? e.1 = some w ∧ Value.compare same e.2 w = .ok true :=
    forall₂_congr fun e he => by rw [find?_unknown h (hg.unknown e he).1]
  rw [Equal, Value.compare_dictionary (entries_isDistinct hg.unknown hg.differ)
    (entries_isDistinct hh.unknown hh.differ), hlength]
  rw [entries, List.forall_mem_append, hsettings, hunknown]
  exact and_left_comm

end Generator

end JsonWriter
