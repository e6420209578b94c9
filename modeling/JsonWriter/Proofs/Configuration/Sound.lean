import JsonWriter.Proofs.Configuration.Insertion
import JsonWriter.Proofs.Delegation.Rendering
import JsonWriter.Proofs.Session.Within

/-!
# Checked generators

Checked changes leave a generator that holds its settings as their checks return them, a positive buffer
length, and unknown keys that differ from each other and from all names of settings. Main statements:
`configure_isSettled` and `set_isSettled`, and `copy_of_isSettled`, the copy of such a generator is the
same.
-/

namespace JsonWriter

/-- A limit is checked as a depth is. -/
theorem Value.isDepth_of_checkLimit {limit w : Value} (h : Setting.maxNesting.check limit = .ok w) :
    limit.IsDepth := by
  refine isDepth_of_check (w := w) ?_
  simp only [Setting.check] at h ⊢
  split at h
  · cases h
  · split at h
    · cases h
    · next hneg => simpa [hneg] using h

namespace Generator

section

variable {g : Generator} (hg : g.IsValid)

include hg

theorem IsValid.maxNesting_isDepth : g.maxNesting.IsDepth := by
  obtain ⟨w, hw⟩ := hg.setting .maxNesting
  exact Value.isDepth_of_checkLimit hw

theorem IsValid.depth_isDepth : g.depth.IsDepth := by
  obtain ⟨w, hw⟩ := hg.setting .depth
  exact Value.isDepth_of_check hw

theorem IsValid.text {s : Setting} (hs : s ∈ Setting.layout) : ∃ t, (g.get s).text? = some t := by
  obtain ⟨w, hw⟩ := hg.setting s
  have hlayout : s = .indent ∨ s = .space ∨ s = .spaceBefore ∨ s = .objectNewline ∨
      s = .arrayNewline := by simpa [Setting.layout] using hs
  obtain rfl | rfl | rfl | rfl | rfl := hlayout
  all_goals
    simp only [Setting.check] at hw
    split at hw
    · next ht => exact Option.isSome_iff_exists.mp ht
    · cases hw

end

/-- The settings are as their checks return them, the buffer length is positive, and no two unknown keys
are the same. -/
structure IsSettled (g : Generator) : Prop extends g.IsValid where
  checked : ∀ s : Setting, s.checked (g.get s) = g.get s
  positive : ∃ n, g.bufferLength.int? = some n ∧ 0 < n
  differ : g.unknown.KeysDiffer

theorem checked_checked (s : Setting) (v : Value) : s.checked (s.checked v) = s.checked v := by
  cases s <;> rfl

/-- A buffer length that is whole and positive stays so. -/
theorem positive_configure {g g' : Generator} {options : Value} {ignored : List Value}
    (hg : ∃ n, g.bufferLength.int? = some n ∧ 0 < n)
    (h : g.configure options = .ok (g', ignored)) :
    ∃ n, g'.bufferLength.int? = some n ∧ 0 < n := by
  obtain ⟨es, -, -, -, hbuffer, -⟩ := configure_eq_ok h
  rw [hbuffer]
  cases hlast : (es.given .bufferLength).getLast?.filter fun v => v.int?.any (0 < ·) with
  | none => exact hg
  | some v =>
    obtain ⟨-, hv⟩ := Option.filter_eq_some_iff.mp hlast
    cases hn : v.int? with
    | none => simp [hn] at hv
    | some n => exact ⟨n, hn, by simpa [hn] using hv⟩

theorem configure_isSettled {g g' : Generator} {options : Value} {ignored : List Value}
    (hg : g.IsSettled) (h : g.configure options = .ok (g', ignored)) : g'.IsSettled where
  toIsValid := configure_isValid hg.toIsValid h
  checked s := by
    obtain ⟨es, -, hnesting, hsettings, -, -⟩ := configure_eq_ok h
    cases s with
    | allowNan | asciiOnly =>
      rw [hsettings _ (by decide) (by decide)]
      cases (Entries.given _ es).getLast? with
      | none => exact hg.checked _
      | some v => exact checked_checked _ v
    | _ => rfl
  positive := positive_configure hg.positive h
  differ := by
    obtain ⟨es, -, -, -, -, hunknown⟩ := configure_eq_ok h
    rw [hunknown]
    exact Keyed.keysDiffer_insertAll hg.differ _

theorem initial_isSettled : initial.IsSettled where
  toIsValid := isValid_initial
  checked s := by cases s <;> rfl
  positive := ⟨1024, rfl, by decide⟩
  differ := List.Pairwise.nil

theorem put_isSettled {g : Generator} (hg : g.IsSettled) {s : Setting} (hs : s ≠ .bufferLength)
    {v : Value} (hcheck : ∃ w, s.check v = .ok w) (hv : s.checked v = v) : (g.put s v).IsSettled where
  toIsValid := put_isValid hg.toIsValid hcheck
  checked t := by
    rw [get_put]
    split
    · next ht => rw [ht, hv]
    · exact hg.checked t
  positive := by
    have hbuffer : (g.put s v).bufferLength = g.bufferLength := by
      have hget := get_put g s .bufferLength v
      rwa [if_neg hs.symm] at hget
    rw [hbuffer]
    exact hg.positive
  differ := by
    rw [unknown_put]
    exact hg.differ

theorem put_depth_isSettled {g : Generator} (hg : g.IsSettled) {depth : Value} (hd : depth.IsDepth) :
    (g.put .depth depth).IsSettled := put_isSettled hg (by decide) ⟨_, hd.check⟩ rfl

theorem unknown_putChecked (g : Generator) (s : Setting) (v : Value) :
    (g.putChecked s v).unknown = g.unknown := by
  rw [putChecked]
  split
  · rfl
  · exact unknown_put g s v

theorem positive_putChecked {g : Generator} (hg : ∃ n, g.bufferLength.int? = some n ∧ 0 < n)
    (s : Setting) (v : Value) : ∃ n, (g.putChecked s v).bufferLength.int? = some n ∧ 0 < n := by
  rw [bufferLength_putChecked]
  split
  · next h =>
    cases hn : v.int? with
    | none => simp [hn] at h
    | some n => exact ⟨n, rfl, by simpa [hn] using h.2⟩
  · exact hg

theorem set_isSettled {g g' : Generator} {s : Setting} {v : Value} (hg : g.IsSettled)
    (h : g.set s v = .ok g') : g'.IsSettled := by
  obtain ⟨w, hw, heq⟩ := map_eq_ok.mp h
  obtain rfl := heq
  refine ⟨set_isValid hg.toIsValid h, fun t => ?_, positive_putChecked hg.positive s w, ?_⟩
  · by_cases ht : t = .bufferLength
    · subst ht
      rfl
    · rw [get_putChecked g ht]
      split
      · next hts =>
        rw [hts, Setting.check_eq_ok hw]
        exact checked_checked s v
      · exact hg.checked t
  · rw [unknown_putChecked]
    exact hg.differ

/-- A positive buffer length stays so at any depths. -/
theorem closed_positive :
    Closed (fun g => ∃ n, g.bufferLength.int? = some n ∧ 0 < n) fun _ => True where
  initial := ⟨1024, rfl, by decide⟩
  configure := positive_configure
  set hg h := by
    obtain ⟨w, -, rfl⟩ := map_eq_ok.mp h
    exact positive_putChecked hg _ w
  unlimited hg := hg
  place hg _ := hg
  depth _ := trivial
  succ _ _ := trivial

/-! ## Entries -/

theorem given_entries (g : Generator) (hg : ∀ e ∈ g.unknown, e.1.IsUnknown) (s : Setting) :
    g.entries.given s = [g.get s] := by
  have hunknown : Entries.given s g.unknown = [] := by
    simp only [Entries.given, List.map_eq_nil_iff, List.filter_eq_nil_iff, decide_eq_true_eq]
    intro e he h
    rw [(hg e he).1] at h
    cases h
  have hsettings : Entries.given s (Setting.all.map fun t => (.str t.name, g.get t)) = [g.get s] := by
    cases s <;> rfl
  rw [entries, Entries.given_append, hsettings, hunknown]
  rfl

theorem unnamed_entries (g : Generator) (hg : ∀ e ∈ g.unknown, e.1.IsUnknown) :
    g.entries.unnamed = g.unknown := by
  have hunknown : Entries.unnamed g.unknown = g.unknown := by
    simp only [Entries.unnamed, List.filter_eq_self, decide_eq_true_eq]
    exact fun e he => (hg e he).1
  have hsettings : Entries.unnamed (Setting.all.map fun t => (.str t.name, g.get t)) = [] := rfl
  rw [entries, Entries.unnamed_append, hsettings, hunknown]
  rfl

theorem eq_of_get {g h : Generator} (hget : ∀ s, g.get s = h.get s) (hunknown : g.unknown = h.unknown) :
    g = h := by
  obtain ⟨⟩ := g
  obtain ⟨⟩ := h
  simp only [mk.injEq]
  exact ⟨hget .indent, hget .space, hget .spaceBefore, hget .objectNewline, hget .arrayNewline,
    hget .maxNesting, hget .allowNan, hget .asciiOnly, hget .bufferLength, hget .depth, hunknown⟩

/-- The generator as it is copied: no limit is the limit zero. -/
def copied (g : Generator) : Generator :=
  { g with maxNesting := Setting.maxNesting.kept g.maxNesting }

theorem get_copied {g : Generator} (hg : g.IsSettled) (s : Setting) :
    g.copied.get s = s.kept (g.get s) := by
  have hother (h : s ≠ .maxNesting) : s.kept (g.get s) = g.get s := by
    rw [Setting.kept, if_neg fun hs => h hs.1, hg.checked]
  cases s with
  | maxNesting => rfl
  | _ => exact (hother (by decide)).symm

/-- The copy of a settled generator is the generator, where no limit is the limit zero. -/
theorem copy_of_isSettled {g : Generator} (hg : g.IsSettled) :
    ∃ ignored, g.copy = .ok (g.copied, ignored) := by
  obtain ⟨g', ignored, hcopy, -, hkept⟩ := copy_of_isValid hg.toIsValid
  obtain ⟨es, hes, -, -, hbuffer, hunknown⟩ := configure_eq_ok hcopy
  obtain rfl : g.entries = es := Option.some.inj hes
  have hcopied : g' = g.copied := by
    refine eq_of_get (fun s => ?_) ?_
    · by_cases hs : s = .bufferLength
      · subst hs
        rw [given_entries g hg.unknown] at hbuffer
        obtain ⟨n, hn, hpos⟩ := hg.positive
        refine hbuffer.trans ?_
        simp [get, copied, Option.filter, hn, hpos]
      · rw [hkept s hs, get_copied hg]
    -- The unknown keys all differ, so none is merged with another on the way.
    · have hdiffer : Keyed.KeysDiffer ([] ++ g.unknown) := hg.differ
      have hunknowns : Keyed.insertAll [] g.unknown = g.unknown :=
        Keyed.insertAll_of_keysDiffer hdiffer
      rw [hunknown, unnamed_entries g hg.unknown, hunknowns]
      exact hunknowns
  exact ⟨ignored, hcopied ▸ hcopy⟩

/-- The entries of a copy are those of the generator: a limit of zero of a derived type becomes plain. -/
theorem entries_copied {g : Generator} (hg : g.IsSettled) :
    List.Forall₂ (fun e e' => e'.1 = e.1 ∧ (e'.2 = e.2 ∨ e.2.wholeNumber? = some 0 ∧ e'.2 = .int 0))
      g.entries g.copied.entries := by
  have hzero (h : g.maxNesting.isTrue = false) : g.maxNesting.wholeNumber? = some 0 := by
    obtain ⟨n, hn, -⟩ := hg.maxNesting_isDepth
    unfold Value.wholeNumber? at hn ⊢
    unfold Value.isTrue at h
    split at hn
    · next hc => simpa [hc] using h
    · cases hn
  refine List.rel_append ?_ (List.forall₂_same.mpr fun e _ => ⟨rfl, .inl rfl⟩)
  rw [List.forall₂_map_left_iff, List.forall₂_map_right_iff, List.forall₂_same]
  refine fun s _ => ⟨rfl, ?_⟩
  cases s with
  | maxNesting =>
    cases htrue : g.maxNesting.isTrue with
    | true => exact .inl (by simp [get, copied, Setting.kept, Setting.checked, htrue])
    | false => exact .inr ⟨hzero htrue, by simp [get, copied, Setting.kept, htrue]⟩
  | _ => exact .inl rfl

/-- The name of a setting is not the same as a key that names none. -/
theorem not_sameKey_name (s : Setting) {key : Value} (h : key.setting? = none) :
    (Value.str s.name).sameKey key = false := by
  rw [Bool.eq_false_iff]
  intro hsame
  obtain ⟨f, hf, hkey⟩ := (Value.sameScalar_iff (.str s.name) key).mp hsame
  obtain rfl := Option.some.inj hf
  have htext : key.text? = some s.name := by
    obtain ⟨-, hkey⟩ | ⟨_, -, hkey⟩ | hkey := Value.scalarForm?_cases hkey
    · cases hkey
    · cases hkey
    · obtain ⟨-, hkey⟩ | ⟨t, ht, htext⟩ | ⟨_, -, hkey⟩ := Value.contentForm?_cases hkey
      · simp at hkey
      · rw [KeyForm.text.inj htext, ← ht, Value.text?_content]
      · cases hkey
  rw [Value.setting?, htext, Option.bind_some, Setting.ofName?_name] at h
  cases h

/-- The names of the settings and the unknown keys are all different, and they can be hashed. -/
theorem entries_isDistinct {g : Generator} (hunknown : ∀ e ∈ g.unknown, e.1.IsUnknown)
    (hdiffer : g.unknown.KeysDiffer) : Keyed.IsDistinct g.entries := by
  refine ⟨List.forall_mem_append.mpr ⟨?_, fun e he => (hunknown e he).2⟩,
    List.pairwise_append.mpr ⟨?_, hdiffer, ?_⟩⟩
  · exact List.forall_mem_map.mpr fun _ _ => rfl
  · rw [List.pairwise_map]
    have hnames : Setting.all.Pairwise fun s t =>
        (Value.str s.name).sameKey (.str t.name) = false := by decide
    exact hnames
  · exact List.forall_mem_map.mpr fun s _ e he => not_sameKey_name s (hunknown e he).1

end Generator

end JsonWriter
