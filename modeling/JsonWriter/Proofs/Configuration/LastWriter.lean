import JsonWriter.Proofs.Configuration.Identity

/-!
# Configuring again and again

What a generator has become after some mappings: a nesting limit is set by the last mapping alone, a
buffer length by the last one whose own last value is positive, any other setting by the last value that
any of them gives, and unknown keys are kept as in one dictionary. Main statement: `configureAll_eq`.
-/

namespace JsonWriter

namespace Entries

/-- The value that is given to a setting last. -/
def last (s : Setting) (es : Entries) : Option Value := (es.given s).getLast?

theorem last_append (s : Setting) (es fs : Entries) :
    last s (es ++ fs) = (last s fs).or (last s es) := by
  simp [last, List.getLast?_append]

end Entries

namespace Generator

/-- The generator after one mapping after the other. -/
def configureAll (g : Generator) (mappings : List Value) : Except Fault Generator :=
  mappings.foldlM (fun g options => (g.configure options).map (·.1)) g

/-- The nesting limit that a mapping sets. -/
def limitOf (es : Entries) : Value :=
  match es.last .maxNesting with
  | none => .int defaultNesting
  | some v => if v.isTrue then v else .int 0

/-- The buffer length that a mapping sets, if the last one that it gives is positive. -/
def lengthOf? (es : Entries) : Option Value :=
  (es.last .bufferLength).filter fun v => v.int?.any (0 < ·)

theorem configureAll_cons {g g' : Generator} {options : Value} {rest : List Value}
    (h : g.configureAll (options :: rest) = .ok g') :
    ∃ next ignored, g.configure options = .ok (next, ignored) ∧
      next.configureAll rest = .ok g' := by
  rw [configureAll, List.foldlM_cons, bind_eq_ok] at h
  obtain ⟨next, hmap, hrest⟩ := h
  obtain ⟨⟨_, ignored⟩, hconfigure, rfl⟩ := map_eq_ok.mp hmap
  exact ⟨_, ignored, hconfigure, hrest⟩

theorem configure_eq {g g' : Generator} {options : Value} {ignored : List Value}
    (h : g.configure options = .ok (g', ignored)) :
    g'.maxNesting = limitOf options.items ∧
      (∀ s, s ≠ .maxNesting → s ≠ .bufferLength →
        g'.get s = ((options.items.last s).map s.checked).getD (g.get s)) ∧
      g'.bufferLength = (lengthOf? options.items).getD g.bufferLength ∧
      g'.unknown = g.unknown.insertAll (Keyed.insertAll [] options.items.unnamed) := by
  obtain ⟨es, hes, hnesting, hsettings, hbuffer, hunknown⟩ := configure_eq_ok h
  have hitems : options.items = es := by rw [Value.items, hes, Option.getD_some]
  rw [hitems]
  refine ⟨hnesting.trans ?_, hsettings, hbuffer, hunknown⟩
  rw [limitOf, Entries.last]
  cases (es.given .maxNesting).getLast? with
  | none => rfl
  | some v => cases hv : v.isTrue <;> simp [Setting.kept, Setting.checked, hv]

section

variable {g g' : Generator} {mappings : List Value} (h : g.configureAll mappings = .ok g')

include h

theorem maxNesting_configureAll : g'.maxNesting =
    (mappings.getLast?.map fun options => limitOf options.items).getD g.maxNesting := by
  induction mappings generalizing g with
  | nil =>
    obtain rfl := Except.ok.inj h
    rfl
  | cons options rest ih =>
    obtain ⟨next, ignored, hconfigure, hrest⟩ := configureAll_cons h
    rw [ih hrest, (configure_eq hconfigure).1]
    cases rest with
    | nil => rfl
    | cons => simp [List.getLast?_cons]

theorem get_configureAll {s : Setting} (hnesting : s ≠ .maxNesting) (hbuffer : s ≠ .bufferLength) :
    g'.get s = ((Entries.last s (mappings.flatMap Value.items)).map s.checked).getD (g.get s) := by
  induction mappings generalizing g with
  | nil =>
    obtain rfl := Except.ok.inj h
    rfl
  | cons options rest ih =>
    obtain ⟨next, ignored, hconfigure, hrest⟩ := configureAll_cons h
    rw [ih hrest, (configure_eq hconfigure).2.1 s hnesting hbuffer, List.flatMap_cons,
      Entries.last_append]
    cases Entries.last s (rest.flatMap Value.items) <;> simp

theorem bufferLength_configureAll : g'.bufferLength =
    (mappings.filterMap fun options => lengthOf? options.items).getLast?.getD g.bufferLength := by
  induction mappings generalizing g with
  | nil =>
    obtain rfl := Except.ok.inj h
    rfl
  | cons options rest ih =>
    obtain ⟨next, ignored, hconfigure, hrest⟩ := configureAll_cons h
    rw [ih hrest, (configure_eq hconfigure).2.2.1, List.filterMap_cons]
    cases lengthOf? options.items with
    | none => rfl
    | some v => simp [List.getLast?_cons]

theorem unknown_configureAll {objects : Nat → Value} (hg : g.unknown.IsIdentified objects)
    (hkeys : (Entries.unnamed (mappings.flatMap Value.items)).IsIdentified objects) :
    g'.unknown = g.unknown.insertAll (Entries.unnamed (mappings.flatMap Value.items)) := by
  induction mappings generalizing g with
  | nil =>
    obtain rfl := Except.ok.inj h
    rfl
  | cons options rest ih =>
    obtain ⟨next, ignored, hconfigure, hrest⟩ := configureAll_cons h
    rw [List.flatMap_cons, Entries.unnamed_append] at hkeys ⊢
    obtain ⟨hhead, htail⟩ := List.forall_mem_append.mp hkeys
    -- A mapping gathers its own keys before they are kept, which makes no difference.
    have hunknown := (configure_eq hconfigure).2.2.2
    rw [Keyed.insertAll_insertAll hg hhead] at hunknown
    have hnext : next.unknown.IsIdentified objects :=
      hunknown ▸ Keyed.isIdentified_insertAll hg hhead
    rw [ih hrest hnext htail, hunknown, Keyed.insertAll_append]

end

theorem isIdentified_unnamed {objects : Nat → Value} {mappings : List Value}
    (h : ∀ options ∈ mappings, options.items.IsIdentified objects) :
    (Entries.unnamed (mappings.flatMap Value.items)).IsIdentified objects := by
  intro e he
  obtain ⟨options, hoptions, he⟩ := List.mem_flatMap.mp (List.mem_of_mem_filter he)
  exact h options hoptions e he

/-- What a new generator has become after mappings that were all accepted. As to the unknown keys, the
identities in them are those of objects, as they are in mappings that were read. -/
theorem configureAll_eq {g : Generator} {mappings : List Value}
    (h : initial.configureAll mappings = .ok g) :
    g.maxNesting = (mappings.getLast?.map fun options => limitOf options.items).getD
        (.int defaultNesting) ∧
      (∀ s, s ≠ .maxNesting → s ≠ .bufferLength → g.get s =
        ((Entries.last s (mappings.flatMap Value.items)).map s.checked).getD (initial.get s)) ∧
      g.bufferLength = (mappings.filterMap fun options => lengthOf? options.items).getLast?.getD
        (.int defaultBufferLength) ∧
      ∀ objects, (Entries.unnamed (mappings.flatMap Value.items)).IsIdentified objects →
        g.unknown = Keyed.insertAll [] (Entries.unnamed (mappings.flatMap Value.items)) :=
  ⟨maxNesting_configureAll h, fun _ => get_configureAll h, bufferLength_configureAll h,
    fun _ => unknown_configureAll h (List.forall_mem_nil _)⟩

/-- Repeated keys, a buffer length that is taken back in the mapping that gives it, and the number one
under three keys. -/
def mappingsSample : List Value :=
  [.mapping .pairs [(.str (text "space"), .str (text " ")), (.setting .space, .str (text "\t")),
      (.str (text "buffer_initial_length"), .int 64), (.int 1, .str (text "a")),
      (.str (text "max_nesting"), .int 5)],
    .mapping .pairs [(.str (text "buffer_initial_length"), .int 9),
      (.str (text "buffer_initial_length"), .int (-1)), (.float .nan, .null),
      (.bool true, .str (text "b"))],
    .dictionary [(.str (text "allow_nan"), .int 1), (.float .nan, .bool false)],
    .mapping .pairs [(.float ⟨0x3FF0000000000000⟩, .str (text "c"))]]

theorem configureAll_mappingsSample :
    ∃ mappings s, Value.readItems mappingsSample (Session.initial true) = (.ok mappings, s) ∧
      ∃ g, initial.configureAll mappings = .ok g ∧ g.maxNesting = .int 100 ∧
        g.space = .str (text "\t") ∧ g.allowNan = .bool true ∧ g.bufferLength = .int 64 ∧
        g.unknown.map (·.2) = [.str (text "c"), .null, .bool false] := by
  have hplain : Value.ArePlain mappingsSample := by
    have hdistinct : Keyed.IsDistinct
        [(Value.str (text "allow_nan"), Value.int 1), (.float .nan, .bool false)] :=
      ⟨by decide, by decide⟩
    simp [mappingsSample, Value.ArePlain, Value.IsPlain, Value.EntriesArePlain, Value.dictionary,
      hdistinct]
  obtain ⟨mappings, n, objects, hread, hobjects⟩ :=
    Value.isIdentified_of_readItems hplain (Session.initial true)
  have hconfigure : ∃ g, initial.configureAll mappings = .ok g := by
    obtain rfl := Except.ok.inj (congrArg Prod.fst hread)
    exact ⟨_, rfl⟩
  obtain ⟨g, hg⟩ := hconfigure
  obtain ⟨hnesting, hsettings, hbuffer, hunknown⟩ := configureAll_eq hg
  have hspace := hsettings .space (by decide) (by decide)
  have hnan := hsettings .allowNan (by decide) (by decide)
  have hkept := hunknown objects (isIdentified_unnamed hobjects)
  obtain rfl := Except.ok.inj (congrArg Prod.fst hread)
  exact ⟨_, _, hread, g, hg, hnesting, hspace, hnan, hbuffer, congrArg (List.map (·.2)) hkept⟩

end Generator

end JsonWriter
