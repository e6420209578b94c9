import JsonWriter.Proofs.Configuration.Sound
import JsonWriter.Proofs.Session.Generating

/-!
# Configurations over each other

A generator is configured twice, first by a base and then by what is over it, or once by the entries of
both in a row. It comes to the same generator and to the same records. Main statement: `merged_apply`.
-/

namespace JsonWriter

/-! ## Reading entries in a row -/

namespace Update

/-- Entries are read after those before them. -/
theorem read_append (u : Update) (es fs : Entries) :
    u.read (es ++ fs) = u.read es >>= fun u' => u'.read fs := by
  induction es generalizing u with
  | nil => rfl
  | cons e rest ih =>
    obtain ⟨key, v⟩ := e
    rw [List.cons_append, read, read]
    split
    · split
      · rfl
      · exact ih _
    · split
      · rfl
      · exact ih _

/-- Whether entries are accepted does not depend on those before them. -/
theorem read_of_read {u w : Update} {es : Entries} (h : u.read es = .ok w) (u' : Update) :
    ∃ w', u'.read es = .ok w' := by
  induction es generalizing u u' with
  | nil => exact ⟨u', rfl⟩
  | cons e rest ih =>
    obtain ⟨key, v⟩ := e
    rw [read] at h
    split at h
    · next s hs =>
      split at h
      · cases h
      · next hv => simpa only [read, hs, hv] using ih h _
    · next hs =>
      split at h
      · cases h
      · next hhash => simpa only [read, hs, hhash] using ih h _

/-- The limit on nesting can be lifted in any mapping. -/
theorem read_unlimited (u : Update) {key : Value} (h : key.setting? = some .maxNesting) :
    u.read [(key, .int 0)] = .ok (u.set .maxNesting (.int 0)) := by
  simp only [read, h]
  rfl

end Update

namespace Generator

/-- The entries give no limit on nesting, which would be reset, no buffer length and no other keys. -/
structure IsBase (base : Entries) : Prop where
  maxNesting : base.given .maxNesting = []
  bufferLength : base.given .bufferLength = []
  unnamed : base.unnamed = []

theorem isBase_nil : IsBase [] := ⟨rfl, rfl, rfl⟩

theorem isBase_prettyEntries : IsBase prettyEntries := ⟨rfl, rfl, rfl⟩

/-- What is over a base that was applied before makes the same generator as both in a row. -/
theorem apply_apply {base es : Entries} (hbase : IsBase base) {b u w : Update}
    (hb : Update.initial.read base = .ok b) (hu : Update.initial.read es = .ok u)
    (hw : Update.initial.read (base ++ es) = .ok w) :
    (initial.apply b).apply u = initial.apply w ∧ u.unknown = w.unknown := by
  obtain ⟨hbvalue, hbunknown⟩ := Update.read_eq_ok hb
  obtain ⟨huvalue, huunknown⟩ := Update.read_eq_ok hu
  obtain ⟨hwvalue, hwunknown⟩ := Update.read_eq_ok hw
  have hunknown : u.unknown = w.unknown := by
    rw [huunknown, hwunknown, Entries.unnamed_append, hbase.unnamed, List.nil_append]
  refine ⟨eq_of_get (fun s => ?_) ?_, hunknown⟩
  · by_cases hs : s = .bufferLength
    · subst hs
      have hb' : (initial.apply b).bufferLength = initial.bufferLength := by
        rw [bufferLength_apply, hbvalue, hbase.bufferLength]
        rfl
      have hu' := bufferLength_apply (initial.apply b) u
      have hw' := bufferLength_apply initial w
      rw [hb', huvalue] at hu'
      rw [hwvalue, Entries.given_append, hbase.bufferLength, List.nil_append] at hw'
      exact hu'.trans hw'.symm
    · rw [get_apply _ _ hs, get_apply _ _ hs, get_apply _ _ hs, huvalue, hbvalue, hwvalue,
        Entries.given_append]
      by_cases hnesting : s = .maxNesting
      · rw [hnesting, hbase.maxNesting, List.nil_append]
        cases (es.given .maxNesting).getLast? <;> rfl
      · rw [List.getLast?_append]
        have hnone : Update.initial.value? s = none := if_neg hnesting
        cases (es.given s).getLast? <;> simp [hnone]
  · have hnil : b.unknown = [] := by
      rw [hbunknown, hbase.unnamed]
      rfl
    rw [unknown_apply, unknown_apply, unknown_apply, hnil, hunknown]
    rfl

/-- The limit on nesting is lifted in the generator or in what it is made of. -/
theorem put_unlimited (g : Generator) (u : Update) :
    (g.apply u).put .maxNesting (.int 0) = g.apply (u.set .maxNesting (.int 0)) := by
  refine eq_of_get (fun s => ?_) (unknown_put _ _ _)
  by_cases hs : s = .bufferLength
  · subst hs
    have hbuffer := bufferLength_apply g (u.set .maxNesting (.int 0))
    exact (bufferLength_apply g u).trans hbuffer.symm
  · rw [get_put, get_apply _ _ hs, get_apply _ _ hs]
    by_cases hnesting : s = .maxNesting <;> simp [Update.set, hnesting]

/-- The entries of a valid generator set everything, whatever comes before them. -/
theorem read_append_entries {g : Generator} (hg : g.IsValid) {base : Entries} (hbase : IsBase base)
    {b u : Update} (hb : Update.initial.read base = .ok b)
    (hu : Update.initial.read g.entries = .ok u) :
    Update.initial.read (base ++ g.entries) = .ok u := by
  obtain ⟨w, hw⟩ := Update.read_of_read hu b
  have happend : Update.initial.read (base ++ g.entries) = .ok w := by
    rw [Update.read_append, hb]
    exact hw
  obtain ⟨huvalue, huunknown⟩ := Update.read_eq_ok hu
  obtain ⟨hwvalue, hwunknown⟩ := Update.read_eq_ok happend
  have hvalue : w.value? = u.value? := by
    funext s
    rw [huvalue, hwvalue, Entries.given_append, given_entries g hg.unknown, List.getLast?_append]
    rfl
  have hunknown : w.unknown = u.unknown := by
    rw [huunknown, hwunknown, Entries.unnamed_append, hbase.unnamed, List.nil_append]
  have heq : w = u := by
    obtain ⟨⟩ := w
    obtain ⟨⟩ := u
    simp only [Update.mk.injEq]
    exact ⟨hvalue, hunknown⟩
  exact heq ▸ happend

theorem configure_of_read (g : Generator) {options : Value} {es : Entries} {u : Update}
    (hes : options.entries? = some es) (hu : Update.initial.read es = .ok u) :
    g.configure options = .ok (g.apply u, u.unknown.map (·.1)) := by
  rw [configure, hes]
  simp only [hu, Except.map]

end Generator

/-! ## Actions -/

/-- The session with one generator more, and with a record for each key that it has no use for. -/
def Session.adding (s : Session) (g : Generator) (ignored : List Value) : Session :=
  { s.ignoring ignored with generators := s.generators.push g }

theorem setIfInBounds_size_push {α : Type} (xs : Array α) (a b : α) :
    (xs.push a).setIfInBounds xs.size b = xs.push b := by
  rw [← Array.toList_inj, Array.toList_setIfInBounds, Array.toList_push, Array.toList_push,
    List.set_append_right xs.size _ (by simp)]
  simp

namespace Session

variable (s : Session) (g : Generator) (ignored : List Value)

theorem generator?_adding_size : (s.adding g ignored).generator? s.generators.size = some g := by
  rw [generator?, adding, Array.getElem?_push_size]

variable {s} in
theorem generator?_adding {id : Nat} {g' : Generator} (h : s.generator? id = some g') :
    (s.adding g ignored).generator? id = some g' := by
  have hid : id < s.generators.size := (Array.getElem?_eq_some_iff.mp h).1
  rw [generator?, adding, Array.getElem?_push_lt hid]
  exact h ▸ (Array.getElem?_eq_getElem hid).symm

end Session

namespace Action

section

variable {g : Generator} {options : Value} {ignored : List Value} (s : Session)

theorem build_refused {f : Fault} (h : Generator.initial.configure options = .error f) :
    build options s = (.error f, s) := by
  rw [build, h]
  rfl

theorem build_apply (h : Generator.initial.configure options = .ok (g, ignored)) :
    build options s = (.ok s.generators.size, s.adding g ignored) := by
  rw [build, h, bind_apply, configured_eq]
  rfl

theorem generator_adding :
    generator s.generators.size (s.adding g ignored) = (.ok g, s.adding g ignored) := by
  rw [generator, Session.generator?_adding_size, Option.getD_some]

theorem replace_adding (g' : Generator) :
    replace s.generators.size g' (s.adding g ignored) = (.ok (), s.adding g' ignored) := by
  rw [replace, Session.adding, setIfInBounds_size_push]
  rfl

/-- A new generator is changed as if it had been made so. -/
theorem configure_adding {g' : Generator} (h : g.configure options = .ok (g', ignored)) :
    configure s.generators.size options (s.adding g []) = (.ok (), s.adding g' ignored) := by
  rw [configure, bind_apply, generator_adding, resume_ok, h, bind_apply, configured_eq, resume_ok,
    replace]
  simp only [Session.adding, Session.ignoring, setIfInBounds_size_push, List.foldl_nil]

end

end Action

theorem Extension.hand_refused {g : Generator} {f : Fault} (hcopy : g.copy = .error f) (depth : Value)
    (s : Session) : hand g depth s = (.error f, s) := by
  have hmade : Action.copy g s = (.error f, s) := Action.build_refused s hcopy
  rw [hand, Action.bind_apply, hmade, Action.resume_error]

theorem Extension.hand_apply {g g' : Generator} {ignored : List Value} (hcopy : g.copy = .ok (g', ignored))
    (depth : Value) (s : Session) :
    hand g depth s = (.ok s.generators.size, s.adding (g'.put .depth depth) ignored) := by
  have hmade : Action.copy g s = (.ok s.generators.size, s.adding g' ignored) :=
    Action.build_apply s hcopy
  rw [hand, Action.bind_apply, hmade, Action.resume_ok, Action.bind_apply, Action.generator_adding,
    Action.resume_ok, Action.bind_apply, Action.replace_adding, Action.resume_ok, Action.pure_apply]

/-- The entries that a configuration puts over a base: its own if it is a mapping, the settings and the
other keys of a generator, and none if it is null. -/
inductive Session.Offers (s : Session) : Value → Entries → Prop
  | null : s.Offers .null []
  | mapping {config : Value} {es : Entries} (h : config.entries? = some es) : s.Offers config es
  | generator {id : Nat} {g : Generator} (h : s.generator? id = some g) :
    s.Offers (.generator id) g.entries

/-- A configuration over a base makes the generator that the entries of both make. -/
theorem merged_apply {base es : Entries} (hbase : Generator.IsBase base) {s : Session} {config : Value}
    (hoffers : s.Offers config es) {w : Update} (hw : Update.initial.read (base ++ es) = .ok w) :
    merged base config s =
      (.ok s.generators.size, s.adding (Generator.initial.apply w) (w.unknown.map (·.1))) := by
  obtain ⟨b, hb, hrest⟩ := bind_eq_ok.mp ((Update.read_append _ _ _).symm.trans hw)
  obtain ⟨u, hu⟩ := Update.read_of_read hrest Update.initial
  obtain ⟨happly, hunknown⟩ := Generator.apply_apply hbase hb hu hw
  have hnil : b.unknown = [] := by
    rw [(Update.read_eq_ok hb).2, hbase.unnamed]
    rfl
  have hbuild : Action.build (.dictionary base) s =
      (.ok s.generators.size, s.adding (Generator.initial.apply b) []) := by
    rw [Action.build_apply s (Generator.configure_of_read _ rfl hb), hnil]
    rfl
  -- What is over the base changes the new generator, and leaves its number.
  have hconfigure {options : Value} (hes : options.entries? = some es) :
      (Action.configure s.generators.size options >>= fun _ => pure s.generators.size)
          (s.adding (Generator.initial.apply b) []) =
        (.ok s.generators.size, s.adding (Generator.initial.apply w) (w.unknown.map (·.1))) := by
    have hoptions := Generator.configure_of_read (Generator.initial.apply b) hes hu
    rw [happly, hunknown] at hoptions
    rw [Action.bind_apply, Action.configure_adding s hoptions]
    rfl
  rw [merged, Action.bind_apply, hbuild, Action.resume_ok]
  cases hoffers with
  | null =>
    rw [List.append_nil] at hw
    obtain rfl := Except.ok.inj (hb.symm.trans hw)
    rw [hnil]
    rfl
  | mapping hes =>
    cases config with
    | null => cases hes
    | generator id => cases hes
    | _ => exact hconfigure hes
  | generator hg =>
    simp only
    rw [Action.bind_apply, Action.generator, Session.generator?_adding _ _ hg, Action.resume_ok]
    exact hconfigure rfl

/-- Over nothing, a configuration makes a generator, unless what it gives is not accepted. -/
theorem merged_nil (config : Value) (s : Session) :
    (∃ g ignored, merged [] config s = (.ok s.generators.size, s.adding g ignored)) ∨
      ∃ options e, Generator.initial.configure options = .error e ∧
        (merged [] config s).1 = .error e := by
  have hbuild : Action.build (.dictionary []) s =
      (.ok s.generators.size, s.adding .initial []) := Action.build_apply s rfl
  have hcases : merged [] config s = (.ok s.generators.size, s.adding .initial []) ∨
      ∃ options, merged [] config s =
        (Action.configure s.generators.size options >>= fun _ => pure s.generators.size)
          (s.adding .initial []) := by
    rw [merged, Action.bind_apply, hbuild, Action.resume_ok]
    cases config with
    | null => exact .inl rfl
    | generator id => exact .inr ⟨_, rfl⟩
    | _ => exact .inr ⟨_, rfl⟩
  obtain hnull | ⟨options, hrun⟩ := hcases
  · exact .inl ⟨_, _, hnull⟩
  · rw [hrun]
    cases houtcome : Generator.initial.configure options with
    | error e =>
      refine .inr ⟨options, e, houtcome, ?_⟩
      rw [Action.bind_apply, Action.configure, Action.bind_apply, Action.generator_adding,
        Action.resume_ok, houtcome]
      rfl
    | ok made =>
      refine .inl ⟨made.1, made.2, ?_⟩
      rw [Action.bind_apply, Action.configure_adding s houtcome]
      rfl

theorem Action.resolve_mapping {config : Value} {es : Entries} (h : config.entries? = some es) :
    resolve config = build config := by
  have hbuild : (if config.entries?.isSome then build config else build (.dictionary [])) =
      build config := if_pos (by rw [h, Option.isSome_some])
  cases config with
  | generator id => cases h
  | _ => exact hbuild

/-- A configuration over nothing is copied or made from its entries, and its limit is lifted. -/
theorem fastGenerate_apply (v : Value) {config : Value} {s : Session} {g : Generator}
    {ignored : List Value}
    (h : merged [] config s = (.ok s.generators.size, s.adding g ignored)) :
    fastGenerate v config s =
      generate v s.generators.size (s.adding (g.put .maxNesting (.int 0)) ignored) := by
  rw [fastGenerate, Action.bind_apply, h, Action.resume_ok, Action.bind_apply, Action.generator_adding,
    Action.resume_ok, Action.bind_apply, Action.replace_adding, Action.resume_ok]

end JsonWriter
