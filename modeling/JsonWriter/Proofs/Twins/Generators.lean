import JsonWriter.Proofs.Configuration.Merging

/-!
# Generators that differ in what is not used

No text depends on the buffer length or on unknown keys. Generators that differ in nothing else are copied
and changed alike, with the same fault if there is one. Main statements: `Twins.set` and `Twins.copy`.
-/

namespace JsonWriter

/-- The same fault, or results that are related. -/
inductive Matches {α β : Type} (R : α → β → Prop) : Except Fault α → Except Fault β → Prop
  | fault (f : Fault) : Matches R (.error f) (.error f)
  | result {a : α} {b : β} (h : R a b) : Matches R (.ok a) (.ok b)

theorem Matches.eq_or {α β : Type} {R : α → β → Prop} {r : Except Fault α} {r' : Except Fault β}
    (h : Matches R r r') :
    (∃ f, r = .error f ∧ r' = .error f) ∨ ∃ a b, r = .ok a ∧ r' = .ok b ∧ R a b := by
  cases h with
  | fault f => exact .inl ⟨f, rfl, rfl⟩
  | result h => exact .inr ⟨_, _, rfl, rfl, h⟩

theorem Matches.map {α β γ δ : Type} {R : α → β → Prop} {Q : γ → δ → Prop} {r : Except Fault α}
    {r' : Except Fault β} (h : Matches R r r') {k : α → γ} {k' : β → δ}
    (hk : ∀ a b, r = .ok a → r' = .ok b → R a b → Q (k a) (k' b)) : Matches Q (r.map k) (r'.map k') := by
  cases h with
  | fault f => exact .fault f
  | result h => exact .result (hk _ _ rfl rfl h)

namespace Generator

/-- The buffer length passes its check, and the unknown keys name no setting. -/
structure IsQuiet (g : Generator) : Prop where
  bufferLength : ∃ v, Setting.bufferLength.check g.bufferLength = .ok v
  unknown : ∀ e ∈ g.unknown, e.1.IsUnknown

/-- The generators are the same, or what they do not share passes whenever they are copied. -/
structure Twins (g h : Generator) : Prop where
  get : ∀ s : Setting, s ≠ .bufferLength → h.get s = g.get s
  quiet : h = g ∨ g.IsQuiet ∧ h.IsQuiet

theorem IsValid.isQuiet {g : Generator} (hg : g.IsValid) : g.IsQuiet :=
  ⟨hg.setting .bufferLength, hg.unknown⟩

theorem Twins.refl (g : Generator) : g.Twins g := ⟨fun _ _ => rfl, .inl rfl⟩

theorem IsQuiet.put {g : Generator} (hg : g.IsQuiet) {s : Setting} (hs : s ≠ .bufferLength) (v : Value) :
    (g.put s v).IsQuiet where
  bufferLength := by
    have hput : (g.put s v).bufferLength = g.bufferLength :=
      (get_put g s .bufferLength v).trans (if_neg hs.symm)
    rw [hput]
    exact hg.bufferLength
  unknown := (unknown_put g s v).symm ▸ hg.unknown

theorem IsQuiet.putChecked {g : Generator} (hg : g.IsQuiet) {s : Setting} {v : Value}
    (hv : ∃ w, s.check v = .ok w) : (g.putChecked s v).IsQuiet where
  bufferLength := by
    rw [bufferLength_putChecked]
    split
    · next h => exact h.1 ▸ hv
    · exact hg.bufferLength
  unknown := (unknown_putChecked g s v).symm ▸ hg.unknown

section

variable {g h : Generator} (hgh : g.Twins h)

include hgh

theorem Twins.put {s : Setting} (hs : s ≠ .bufferLength) (v : Value) : (g.put s v).Twins (h.put s v) where
  get t ht := by rw [get_put, get_put, hgh.get t ht]
  quiet := by
    obtain rfl | ⟨hg, hh⟩ := hgh.quiet
    · exact .inl rfl
    · exact .inr ⟨hg.put hs v, hh.put hs v⟩

theorem Twins.putChecked {s : Setting} {v : Value} (hv : ∃ w, s.check v = .ok w) :
    (g.putChecked s v).Twins (h.putChecked s v) where
  get t ht := by rw [get_putChecked g ht, get_putChecked h ht, hgh.get t ht]
  quiet := by
    obtain rfl | ⟨hg, hh⟩ := hgh.quiet
    · exact .inl rfl
    · exact .inr ⟨hg.putChecked hv, hh.putChecked hv⟩

theorem Twins.set (s : Setting) (v : Value) : Matches Twins (g.set s v) (h.set s v) := by
  rw [Generator.set, Generator.set]
  cases hw : s.check v with
  | error f => exact .fault f
  | ok w => exact .result (hgh.putChecked (Setting.check_of_check hw))

theorem Twins.format_eq : h.format = g.format := by
  have hindent : h.indent = g.indent := hgh.get .indent (by decide)
  have hspace : h.space = g.space := hgh.get .space (by decide)
  have hbefore : h.spaceBefore = g.spaceBefore := hgh.get .spaceBefore (by decide)
  have hobject : h.objectNewline = g.objectNewline := hgh.get .objectNewline (by decide)
  have harray : h.arrayNewline = g.arrayNewline := hgh.get .arrayNewline (by decide)
  have hnesting : h.maxNesting = g.maxNesting := hgh.get .maxNesting (by decide)
  have hnan : h.allowNan = g.allowNan := hgh.get .allowNan (by decide)
  have hascii : h.asciiOnly = g.asciiOnly := hgh.get .asciiOnly (by decide)
  rw [format, format, colon, colon, hindent, hspace, hbefore, hobject, harray, hnesting, hnan, hascii]

end

/-! ## Entries -/

section

variable {g h : Generator} (hg : g.IsQuiet) (hh : h.IsQuiet)
  (hget : ∀ s : Setting, s ≠ .bufferLength → h.get s = g.get s)

include hg hh hget

/-- The first setting that is refused is the same, whatever was read before. -/
theorem read_settings_matches (ss : List Setting) (u u' : Update) :
    Matches (fun _ _ => True) (u.read (ss.map (fun s => (.str s.name, g.get s)) ++ g.unknown))
      (u'.read (ss.map (fun s => (.str s.name, h.get s)) ++ h.unknown)) := by
  induction ss generalizing u u' with
  | nil =>
    rw [List.map_nil, List.map_nil, List.nil_append, List.nil_append, Update.read_unknown hg.unknown,
      Update.read_unknown hh.unknown]
    exact .result trivial
  | cons s rest ih =>
    have hname : (Value.str s.name).setting? = some s := Setting.ofName?_name s
    rw [List.map_cons, List.map_cons, List.cons_append, List.cons_append, Update.read, Update.read, hname]
    by_cases hs : s = .bufferLength
    · subst hs
      simp only [get, Setting.checkEntry_of_check hg.bufferLength, Setting.checkEntry_of_check hh.bufferLength]
      exact ih _ _
    · rw [hget s hs]
      dsimp only
      cases s.checkEntry (g.get s) with
      | error f => exact .fault f
      | ok w => exact ih _ _

/-- What the entries of both make is alike. -/
theorem apply_entries {u u' : Update} (hu : Update.initial.read g.entries = .ok u)
    (hu' : Update.initial.read h.entries = .ok u') : (initial.apply u).Twins (initial.apply u') where
  get s hs := by
    rw [get_apply _ _ hs, get_apply _ _ hs, (Update.read_eq_ok hu).1, (Update.read_eq_ok hu').1,
      given_entries g hg.unknown, given_entries h hh.unknown, hget s hs]
  quiet := by
    have hvalid {es : Entries} {w : Update} (hw : Update.initial.read es = .ok w) :
        (initial.apply w).IsValid :=
      apply_isValid isValid_initial (Update.isChecked_of_read Update.initial_isChecked hw)
    exact .inr ⟨(hvalid hu).isQuiet, (hvalid hu').isQuiet⟩

end

theorem Twins.copy {g h : Generator} (hgh : g.Twins h) :
    Matches (fun made made' => made.1.Twins made'.1) g.copy h.copy := by
  obtain rfl | ⟨hg, hh⟩ := hgh.quiet
  · cases h.copy with
    | error f => exact .fault f
    | ok made => exact .result (.refl made.1)
  · have hread := read_settings_matches hg hh hgh.get Setting.all Update.initial Update.initial
    exact hread.map fun u u' hu hu' _ => apply_entries hg hh hgh.get hu hu'

end Generator

end JsonWriter
