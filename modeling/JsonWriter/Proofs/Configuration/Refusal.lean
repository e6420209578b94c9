import JsonWriter.Proofs.Delegation.Sharing

/-!
# What keeps a generator from being configured

A mapping is read in order, and the first entry that no generator takes is the fault. Nothing is written
or logged before the mapping is read to its end, and nothing can go wrong after that. Main statement:
`configure_refused`.
-/

namespace JsonWriter

/-! ## Entries -/

/-- The settings that take text. -/
def Setting.IsTextual : Setting → Prop
  | indent | space | spaceBefore | objectNewline | arrayNewline => True
  | _ => False

/-- The settings that take a whole number, and any value for which they do. Whatever is not true lifts
the nesting limit. -/
def Setting.Counts (s : Setting) (v : Value) : Prop :=
  s = depth ∨ s = bufferLength ∨ (s = maxNesting ∧ v.isTrue = true)

/-- The entry is refused: a setting is given what it does not take, or the key names no setting and cannot
be one of a dictionary. -/
inductive Refused : Value × Value → Fault → Prop
  | notText {key v : Value} {s : Setting} (hs : key.setting? = some s) (htextual : s.IsTextual)
    (hv : v.text? = none) : Refused (key, v) (.type (.settingNotText s v.kind))
  | notWhole {key v : Value} {s : Setting} (hs : key.setting? = some s) (hcounts : s.Counts v)
    (hv : v.wholeNumber? = none) : Refused (key, v) (.type (.settingNotInteger s v.kind))
  | negative {key v : Value} {s : Setting} {n : Int} (hs : key.setting? = some s)
    (hlimit : s = .maxNesting ∨ s = .depth) (hv : v.wholeNumber? = some n) (hn : n < 0) :
    Refused (key, v) (.value (.negativeSetting s))
  | unhashable {key v : Value} {kind : Text} (hs : key.setting? = none)
    (hkind : key.unhashable? = some kind) : Refused (key, v) (.type (.unhashable kind))

theorem Value.isTrue_of_negative {v : Value} {n : Int} (hv : v.wholeNumber? = some n) (hn : n < 0) :
    v.isTrue = true := by
  unfold wholeNumber? at hv
  split at hv
  · next hcontent =>
    obtain rfl := Option.some.inj hv
    simp only [isTrue, hcontent, bne_iff_ne, ne_eq]
    omega
  · cases hv

/-- The check of an entry fails for what is wrong with it. -/
theorem Setting.refused_of_checkEntry {s : Setting} {key v : Value} {f : Fault}
    (hs : key.setting? = some s) (h : s.checkEntry v = .error f) : Refused (key, v) f := by
  have hcheck : ¬ (s = maxNesting ∧ v.isTrue = false) ∧ s.check v = .error f := by
    unfold checkEntry at h
    split at h
    · cases h
    · next hlifted => exact ⟨hlifted, h⟩
  obtain ⟨hlifted, hcheck⟩ := hcheck
  have hcounts (hlimit : s = maxNesting ∨ s = depth) : s.Counts v := by
    obtain rfl | rfl := hlimit
    · exact .inr (.inr ⟨rfl, by simpa using hlifted⟩)
    · exact .inl rfl
  cases s with
  | allowNan | asciiOnly => cases hcheck
  | maxNesting | depth =>
    simp only [check] at hcheck
    split at hcheck
    · next hv =>
      obtain rfl := Except.error.inj hcheck
      exact .notWhole hs (hcounts (by simp)) hv
    · next n hv =>
      split at hcheck
      · next hn =>
        obtain rfl := Except.error.inj hcheck
        exact .negative hs (by simp) hv hn
      · cases hcheck
  | bufferLength =>
    simp only [check] at hcheck
    split at hcheck
    · cases hcheck
    · next hv =>
      obtain rfl := Except.error.inj hcheck
      exact .notWhole hs (.inr (.inl rfl)) (by simpa using hv)
  | indent | space | spaceBefore | objectNewline | arrayNewline =>
    simp only [check] at hcheck
    split at hcheck
    · cases hcheck
    · next hv =>
      obtain rfl := Except.error.inj hcheck
      exact .notText hs trivial (by simpa using hv)

theorem Setting.checkEntry_of_refused {s : Setting} {key v : Value} {f : Fault}
    (hs : key.setting? = some s) (h : Refused (key, v) f) : s.checkEntry v = .error f := by
  cases h with
  | @notText _ _ t ht htextual hv =>
    obtain rfl : s = t := Option.some.inj (hs.symm.trans ht)
    cases s <;> first | exact htextual.elim | simp [checkEntry, check, hv]
  | @notWhole _ _ t ht hcounts hv =>
    obtain rfl : s = t := Option.some.inj (hs.symm.trans ht)
    obtain rfl | rfl | ⟨rfl, htrue⟩ := hcounts
    · simp [checkEntry, check, hv]
    · simp [checkEntry, check, hv]
    · simp [checkEntry, check, hv, htrue]
  | @negative _ _ t n ht hlimit hv hn =>
    obtain rfl : s = t := Option.some.inj (hs.symm.trans ht)
    have htrue := Value.isTrue_of_negative hv hn
    obtain rfl | rfl := hlimit <;> simp [checkEntry, check, hv, htrue, hn]
  | unhashable hnone _ =>
    rw [hs] at hnone
    cases hnone

theorem Setting.checkEntry_eq_error_iff {s : Setting} {key v : Value} {f : Fault}
    (hs : key.setting? = some s) : s.checkEntry v = .error f ↔ Refused (key, v) f :=
  ⟨refused_of_checkEntry hs, checkEntry_of_refused hs⟩

theorem Refused.unhashable?_eq {key v : Value} {f : Fault} (h : Refused (key, v) f)
    (hs : key.setting? = none) : ∃ kind, key.unhashable? = some kind ∧ f = .type (.unhashable kind) := by
  cases h with
  | notText ht | notWhole ht | negative ht => cases hs.symm.trans ht
  | @unhashable _ _ kind _ hkind => exact ⟨kind, hkind, rfl⟩

/-- There is one fault for an entry. -/
theorem Refused.unique {e : Value × Value} {f f' : Fault} (h : Refused e f) (h' : Refused e f') :
    f = f' := by
  obtain ⟨key, v⟩ := e
  cases hs : key.setting? with
  | some s =>
    have hcheck := (Setting.checkEntry_eq_error_iff hs).mpr h
    rw [(Setting.checkEntry_eq_error_iff hs).mpr h'] at hcheck
    exact (Except.error.inj hcheck).symm
  | none =>
    obtain ⟨kind, hkind, rfl⟩ := h.unhashable?_eq hs
    obtain ⟨kind', hkind', rfl⟩ := h'.unhashable?_eq hs
    obtain rfl : kind = kind' := Option.some.inj (hkind.symm.trans hkind')
    rfl

/-! ## Mappings -/

namespace Update

/-- A mapping with a bad entry in front is refused for it, and one with a good entry is read on. -/
theorem read_cons (u : Update) (e : Value × Value) (rest : Entries) :
    (∃ f, Refused e f ∧ u.read (e :: rest) = .error f) ∨
      (∀ f, ¬ Refused e f) ∧ ∃ u' : Update, u.read (e :: rest) = u'.read rest := by
  obtain ⟨key, v⟩ := e
  cases hs : key.setting? with
  | some s =>
    have hrefused (f : Fault) := Setting.checkEntry_eq_error_iff (v := v) (f := f) hs
    cases hcheck : s.checkEntry v with
    | error f => exact .inl ⟨f, (hrefused f).mp hcheck, by simp [read, hs, hcheck]⟩
    | ok w =>
      refine .inr ⟨fun f hf => ?_, u.set s w, by simp [read, hs, hcheck]⟩
      rw [(hrefused f).mpr hf] at hcheck
      cases hcheck
  | none =>
    cases hkind : key.unhashable? with
    | some kind => exact .inl ⟨_, .unhashable hs hkind, by simp [read, hs, hkind]⟩
    | none =>
      refine .inr ⟨fun f hf => ?_, { u with unknown := u.unknown.insert key v }, by
        simp [read, hs, hkind]⟩
      obtain ⟨kind, hsome, -⟩ := hf.unhashable?_eq hs
      cases hkind.symm.trans hsome

/-- A mapping is refused for the first of its entries that is. -/
theorem read_eq_error_iff {u : Update} {es : Entries} {f : Fault} :
    u.read es = .error f ↔ ∃ before e after, es = before ++ e :: after ∧
      (∀ d ∈ before, ∀ f', ¬ Refused d f') ∧ Refused e f := by
  constructor
  · intro h
    induction es generalizing u with
    | nil => cases h
    | cons e rest ih =>
      obtain ⟨f', hf', hread⟩ | ⟨hgood, u', hread⟩ := read_cons u e rest
      · obtain rfl : f' = f := Except.error.inj (hread.symm.trans h)
        exact ⟨[], e, rest, rfl, by simp, hf'⟩
      · obtain ⟨before, d, after, rfl, hbefore, hd⟩ := ih (hread.symm.trans h)
        exact ⟨e :: before, d, after, rfl, List.forall_mem_cons.mpr ⟨hgood, hbefore⟩, hd⟩
  · rintro ⟨before, e, after, rfl, hbefore, he⟩
    induction before generalizing u with
    | nil =>
      obtain ⟨f', hf', hread⟩ | ⟨hgood, -⟩ := read_cons u e after
      · rw [List.nil_append, hread, he.unique hf']
      · exact absurd he (hgood f)
    | cons d before ih =>
      obtain ⟨hd, hbefore⟩ := List.forall_mem_cons.mp hbefore
      obtain ⟨f', hf', -⟩ | ⟨-, u', hread⟩ := read_cons u d (before ++ e :: after)
      · exact absurd hf' (hd f')
      · rw [List.cons_append, hread]
        exact ih hbefore

end Update

/-! ## Configuration -/

/-- Why a configuration is refused: it is no mapping, or its first entry that is refused. -/
inductive Generator.Refuses (options : Value) : Fault → Prop
  | notMapping (h : options.entries? = none) : Refuses options (.notMapping options.kind)
  | entry {before after : Entries} {e : Value × Value} {f : Fault}
    (h : options.entries? = some (before ++ e :: after))
    (hbefore : ∀ d ∈ before, ∀ f', ¬ Refused d f') (he : Refused e f) : Refuses options f

theorem Generator.configure_eq_error_iff {g : Generator} {options : Value} {f : Fault} :
    g.configure options = .error f ↔ Refuses options f := by
  unfold configure
  cases hes : options.entries? with
  | none =>
    simp only [Except.error.injEq]
    constructor
    · rintro rfl
      exact .notMapping hes
    · intro h
      cases h with
      | notMapping => rfl
      | entry h => cases hes.symm.trans h
  | some es =>
    have hread : Update.initial.read es = .error f ↔ _ := Update.read_eq_error_iff
    simp only
    constructor
    · intro h
      cases hupdate : Update.initial.read es with
      | ok u =>
        rw [hupdate] at h
        cases h
      | error f' =>
        rw [hupdate] at h hread
        obtain rfl : f' = f := Except.error.inj h
        obtain ⟨before, e, after, rfl, hbefore, he⟩ := hread.mp rfl
        exact .entry hes hbefore he
    · intro h
      cases h with
      | notMapping h => cases hes.symm.trans h
      | entry h hbefore he =>
        rw [hread.mpr ⟨_, _, _, Option.some.inj (hes.symm.trans h), hbefore, he⟩]
        rfl

/-- A configuration is refused just for what is no mapping and for the first entry that gives a setting
what it does not take or whose unknown key cannot be one, whatever comes before that entry. Then the
session is as it was: the generator with its settings and unknown keys, all others, and the log. -/
theorem configure_refused (s : Session) (id : Nat) (options : Value) :
    (∀ f, (Action.configure id options s).1 = .error f ↔ Generator.Refuses options f) ∧
      ∀ f, (Action.configure id options s).1 = .error f → (Action.configure id options s).2 = s := by
  rw [Action.configure, Action.bind_apply, Action.generator, Action.resume_ok, Action.bind_apply]
  cases hrun : ((s.generator? id).getD .initial).configure options with
  | error f =>
    have hfails : Action.configured (.error f) s = (.error f, s) := rfl
    rw [hfails, Action.resume_error]
    refine ⟨fun f' => ?_, fun _ _ => rfl⟩
    rw [← Generator.configure_eq_error_iff, hrun, Except.error.injEq, Except.error.injEq]
  | ok configured =>
    obtain ⟨g, ignored⟩ := configured
    rw [Action.configured_eq, Action.resume_ok]
    refine ⟨fun f => ⟨fun hfails => ?_, fun h => ?_⟩, fun f hfails => ?_⟩
    · cases hfails
    · rw [Generator.configure_eq_error_iff.mpr h] at hrun
      cases hrun
    · cases hfails

/-- A good setting, an unknown key, a setting that does not take what it is given, and a key that cannot be
one. -/
def mixedOptions : Value :=
  .dictionary [(.str (text "indent"), .str (text "\t")), (.str (text "zz"), .int 1),
    (.setting .maxNesting, .bool true), (.list [], .null)]

theorem configure_mixedOptions :
    let s := { Session.initial true with generators := #[{ Generator.initial with
      unknown := [(.str (text "origin"), .int 1)] }] }
    let f := Fault.type (.settingNotInteger .maxNesting (text "bool"))
    (Action.configure 0 mixedOptions s).1 = .error f ∧ Generator.Refuses mixedOptions f ∧
      (Action.configure 0 mixedOptions s).2 = s := by
  intro s f
  have hfails : (Action.configure 0 mixedOptions s).1 = .error f := rfl
  obtain ⟨hfaults, hkept⟩ := configure_refused s 0 mixedOptions
  exact ⟨hfails, (hfaults f).mp hfails, hkept f hfails⟩

end JsonWriter
