import JsonWriter.Proofs.Configuration.Merging
import JsonWriter.Proofs.Layout.Unlimited
import JsonWriter.Proofs.Renumbering.Rendering
import JsonWriter.Proofs.Session.Steps

/-!
# The ways to generate

Text can be generated with a configuration, with one over the settings for easy reading, and with one
without a limit on nesting. Main statement: `entryPoints_agree`, the last two come to what the first
comes to with the right configuration.
-/

namespace JsonWriter

open Generator (Format)

/-! ## Copies -/

namespace Generator

theorem configure_ignored {g g' : Generator} {options : Value} {ignored : List Value}
    (h : g.configure options = .ok (g', ignored)) :
    ignored = (Keyed.insertAll [] options.items.unnamed).map (·.1) := by
  unfold configure at h
  split at h
  · cases h
  · next es hes =>
    obtain ⟨u, hread, heq⟩ := map_eq_ok.mp h
    obtain ⟨-, rfl⟩ := Prod.mk.inj heq
    rw [(Update.read_eq_ok hread).2, Value.items, hes]
    rfl

theorem kept_kept (s : Setting) (v : Value) : s.kept (s.kept v) = s.kept v := by
  by_cases h : s = .maxNesting ∧ v.isTrue = false
  · have hkept : s.kept v = .int 0 := if_pos h
    rw [hkept, h.1]
    rfl
  · have hkept : s.kept v = s.checked v := if_neg h
    rw [hkept]
    cases s with
    | maxNesting => exact hkept
    | _ => exact (if_neg fun h => absurd h.1 (by decide)).trans (checked_checked _ v)

/-- A copy of a valid generator has the settings that are kept of it. -/
theorem kept_of_copy {g g' : Generator} {ignored : List Value} (hg : g.IsValid)
    (h : g.copy = .ok (g', ignored)) : ∀ t, t ≠ .bufferLength → g'.get t = t.kept (g.get t) := by
  obtain ⟨_, _, hcopy, -, hkept⟩ := copy_of_isValid hg
  obtain ⟨rfl, -⟩ := Prod.mk.inj (Except.ok.inj (h.symm.trans hcopy))
  exact hkept

/-- A copy is copied as the generator is. -/
theorem copy_copy {g g' : Generator} {ignored : List Value} (hg : g.IsValid)
    (h : g.copy = .ok (g', ignored)) : g'.copy = .ok (g', ignored) := by
  have hsettled : g'.IsSettled := configure_isSettled initial_isSettled h
  obtain ⟨ignored', hcopy⟩ := copy_of_isSettled hsettled
  have hcopied : g'.copied = g' := by
    have hnesting : g'.maxNesting = Setting.maxNesting.kept g.maxNesting :=
      kept_of_copy hg h .maxNesting (by decide)
    rw [copied, hnesting, kept_kept, ← hnesting]
  -- The unknown keys of a copy are those of the generator, each once.
  have hunnamed : g'.entries.unnamed = Keyed.insertAll [] g.entries.unnamed := by
    obtain ⟨es, hes, -, -, -, hunknown⟩ := configure_eq_ok h
    obtain rfl : g.entries = es := Option.some.inj hes
    rw [unnamed_entries g' hsettled.unknown, hunknown]
    exact Keyed.insertAll_of_keysDiffer (Keyed.keysDiffer_insertAll List.Pairwise.nil _)
  have hignored : ignored' = ignored := by
    rw [configure_ignored h, configure_ignored hcopy]
    change (Keyed.insertAll [] g'.entries.unnamed).map (·.1) =
      (Keyed.insertAll [] g.entries.unnamed).map (·.1)
    have hdiffer : Keyed.KeysDiffer ([] ++ g'.entries.unnamed) := by
      rw [hunnamed]
      exact Keyed.keysDiffer_insertAll List.Pairwise.nil _
    rw [Keyed.insertAll_of_keysDiffer hdiffer, hunnamed]
    rfl
  rw [hcopy, hcopied, hignored]

theorem number?_kept {limit : Value} (h : ∃ w, Setting.maxNesting.check limit = .ok w) :
    (Setting.maxNesting.kept limit).number? = limit.number? := by
  obtain ⟨w, hw⟩ := h
  obtain ⟨n, hn, -⟩ := Value.isDepth_of_checkLimit hw
  rw [Setting.kept]
  split
  · next hlimit =>
    unfold Value.wholeNumber? at hn
    split at hn
    · next m hm =>
      obtain rfl : m = 0 := by simpa [Value.isTrue, hm] using hlimit.2
      rw [Value.number?, Value.number?, hm]
      rfl
    · cases hn
  · rfl

end Generator

/-! ## A generator and its copy in one session -/

namespace Render

section

variable (extend : Extender) {f : Format} {limit : Value}

theorem enter_limit (hlimit : ∀ depth,
      Generator.checkNesting limit depth = Generator.checkNesting f.maxNesting depth)
    (v : Value) (shape : Shape) (entries : List Entry) (depth : Value) (room : Nat) :
    enter { f with maxNesting := limit } v shape entries depth room =
      enter f v shape entries depth room := by
  have hnewline : shape.newline { f with maxNesting := limit } = shape.newline f := by cases shape <;> rfl
  simp only [enter, hlimit, hnewline]

mutual

/-- Of the limit on nesting it counts only what it allows. -/
theorem print_limit (hlimit : ∀ depth,
      Generator.checkNesting limit depth = Generator.checkNesting f.maxNesting depth) (p : Visit) :
    print extend { f with maxNesting := limit } p = print extend f p := by
  match hv : container? p.value with
  | none =>
    rw [print_leaf hv, print_leaf hv]
    rfl
  | some (shape, entries) =>
    have henter := enter_limit hlimit p.value shape entries p.depth p.room
    match he : enter f p.value shape entries p.depth p.room with
    | .error e => rw [print_refused hv he, print_refused hv (henter.trans he)]
    | .ok fr =>
      rw [print_entered hv he, print_entered hv (henter.trans he), printFrame_limit hlimit fr]
termination_by steps p.room p.value
decreasing_by
  rw [steps_of_enter hv he]
  omega

theorem printFrame_limit (hlimit : ∀ depth,
      Generator.checkNesting limit depth = Generator.checkNesting f.maxNesting depth) (fr : Frame) :
    printFrame extend { f with maxNesting := limit } fr = printFrame extend f fr := by
  match hr : fr.rest with
  | [] =>
    rw [printFrame_closed hr, printFrame_closed hr]
    rfl
  | entry :: rest =>
    rw [printFrame_entry hr, printFrame_entry hr, print_limit hlimit (fr.visit entry),
      printFrame_limit hlimit (fr.advance rest)]
    rfl
termination_by fr.steps
decreasing_by
  all_goals simp only [Frame.steps, Frame.visit, Frame.advance, hr, total_cons]; omega

end

theorem parts_limit (hlimit : ∀ depth,
      Generator.checkNesting limit depth = Generator.checkNesting f.maxNesting depth)
    (hnumber : limit.number? = f.maxNesting.number?) (v depth : Value) :
    parts extend { f with maxNesting := limit } v depth = parts extend f v depth := by
  have hroom : roomFor { f with maxNesting := limit } depth = roomFor f depth := by
    simp only [roomFor, hnumber]
  rw [parts_eq_print, parts_eq_print, hroom, print_limit extend hlimit]

end

end Render

/-- Objects that write themselves are given copies, so a copy of the generator serves as well. -/
theorem Extension.writeAt_copy {g g' : Generator} (h : g'.copy = g.copy) (level : Nat) :
    Extension.writeAt g' level = Extension.writeAt g level := by
  cases level with
  | zero => rfl
  | succ level =>
    funext e depth
    simp only [Extension.writeAt, Extension.write, Action.copy, h]

section

variable {g g' : Generator} {ignored : List Value} (hvalid : g.IsValid) (hcopy : g.copy = .ok (g', ignored))

include hvalid hcopy

theorem Render.parts_copy (level : Nat) (v : Value) :
    parts (Extension.writeAt g' level) g'.format v g'.depth =
      parts (Extension.writeAt g level) g.format v g.depth := by
  have hkept := Generator.kept_of_copy hvalid hcopy
  have hwrite := Extension.writeAt_copy ((Generator.copy_copy hvalid hcopy).trans hcopy.symm) level
  have hformat : g'.format = { g.format with maxNesting := Setting.maxNesting.kept g.maxNesting } :=
    Generator.format_of_kept hkept g'.depth
  have hdepth : g'.depth = g.depth := hkept .depth (by decide)
  have hlimit := hvalid.setting .maxNesting
  rw [hwrite, hformat, hdepth]
  exact parts_limit _ (Generator.checkNesting_kept hlimit) (Generator.number?_kept hlimit) v _

variable (v : Value) {s : Session} {id id' : Nat} (hg : s.generator? id = some g)
  (hg' : s.generator? id' = some g')

include hg hg'

theorem render_copy : render v id' none s = render v id none s := by
  rw [render, renderAt_eq, renderAt_eq, Action.bind_apply, Action.bind_apply, Action.generator,
    Action.generator, hg, hg', Action.resume_ok, Action.resume_ok]
  simp only [Option.getD_some, Option.getD_none, Render.parts_copy hvalid hcopy]

/-- A copy of a generator comes to the same text or fault in the session in which both are, and leaves
it in the same way. -/
theorem generate_copy : generate v id' s = generate v id s := by
  have hascii : g'.asciiOnly.isTrue = g.asciiOnly.isTrue := by
    have hkept : g'.asciiOnly = .bool g.asciiOnly.isTrue :=
      Generator.kept_of_copy hvalid hcopy .asciiOnly (by decide)
    rw [hkept]
    rfl
  have hsafe : Action.Ensures (s.Within none fun _ => True) (fun _ => True) (render v id none) :=
    ensures_render Generator.closed_all v id none v.arePlaced_all fun _ _ => trivial
  have hkeeps := (hsafe s (.refl fun _ _ _ => trivial)).1
  have hbody : (do
        let t ← render v id' none
        Action.ofExcept (checkOutput (← Action.generator id').asciiOnly.isTrue t)
        return t : Action Text) s =
      (do
        let t ← render v id none
        Action.ofExcept (checkOutput (← Action.generator id).asciiOnly.isTrue t)
        return t : Action Text) s := by
    rw [Action.bind_apply, Action.bind_apply, render_copy hvalid hcopy v hg hg']
    generalize render v id none s = run at hkeeps
    obtain ⟨_ | t, s'⟩ := run
    · rfl
    · -- Both generators are still there when the text is checked.
      have hs := hkeeps.kept id g hg (by simp)
      have hs' := hkeeps.kept id' g' hg' (by simp)
      rw [Action.resume_ok, Action.resume_ok, Action.bind_apply, Action.bind_apply, Action.generator,
        Action.generator, hs, hs', Action.resume_ok, Action.resume_ok, Option.getD_some,
        Option.getD_some, hascii]
  rw [generate, generate, generateWith, generateWith]
  exact Action.logged_congr (by simp only [Action.counted, hbody])

end

/-! ## Without a limit -/

theorem Value.isBelow_inherited (n : Nat) :
    Value.Inherited (fun v => v.IsNative ∧ v.IsBelow n) (Value.IsBelow n) where
  item {v kind items} hv h w hw := by
    refine ⟨Value.IsTree.inherited.item hv.1 h w hw, ?_⟩
    have hcontent := Value.content_raise (n := n) v
    rw [hv.2, h, Value.raise, Value.raiseItems_eq_map, Value.sequence.injEq] at hcontent
    exact List.map_inj_left.mp (hcontent.2.symm.trans (List.map_id items).symm) w hw
  entry {v kind entries} hv h e he := by
    have hcontent := Value.content_raise (n := n) v
    rw [hv.2, h, Value.raise, Value.raiseEntries_eq_map, Value.mapping.injEq] at hcontent
    have hentry := List.map_inj_left.mp (hcontent.2.symm.trans (List.map_id entries).symm) e he
    exact ⟨congrArg Prod.fst hentry, (Value.IsTree.inherited.entry hv.1 h e he).2,
      congrArg Prod.snd hentry⟩
  raw {v kind data} hv h :=
    ⟨Value.IsTree.inherited.raw hv.1 h, congrArg Value.dictionary (Value.rawEntries_raise kind data)⟩

namespace Session

/-- Values without generators from `n` on show themselves in the second session as in the first. -/
def ShowsAlike (n : Nat) (s t : Session) : Prop :=
  ∀ v : Value, v.IsBelow n → v.shown? t.describe = v.shown? s.describe

theorem Raised.showsAlike {n : Nat} {s t : Session} (h : s.Raised n t) : s.ShowsAlike n t := by
  intro v hv
  have hshown := Value.shown?_raise h.describe v
  rwa [hv] at hshown

theorem ShowsAlike.symm {n : Nat} {s t : Session} (h : s.ShowsAlike n t) : t.ShowsAlike n s :=
  fun v hv => (h v hv).symm

theorem ShowsAlike.trans {n : Nat} {s t u : Session} (h : s.ShowsAlike n t) (h' : t.ShowsAlike n u) :
    s.ShowsAlike n u := fun v hv => (h' v hv).trans (h v hv)

end Session

section

variable {n : Nat} {s t : Session} (hshows : s.ShowsAlike n t)

include hshows

theorem Action.shown_alike {v : Value} (hv : v.IsBelow n) {k : Text → Action Text}
    (hk : ∀ u, (k u t).1 = (k u s).1) : ((shown v >>= k) t).1 = ((shown v >>= k) s).1 := by
  rw [bind_apply, bind_apply, shown, shown, hshows v hv]
  split
  · exact hk _
  · rfl
  · rfl

theorem Render.label_alike (f : Format) {key : Value} (hkey : key.IsBelow n) :
    (label f key t).1 = (label f key s).1 :=
  label_induction (P := fun x => (x t).1 = (x s).1) (fun _ _ _ => quoted_isFixed _ _ _ t s)
    (fun _ hk => Action.shown_alike hshows hkey hk) f

theorem Render.leaf_alike {v : Value} (hv : v.IsNative) (hbelow : v.IsBelow n) (extend : Extender)
    (f : Format) (depth : Value) : (leaf extend f v depth t).1 = (leaf extend f v depth s).1 :=
  leaf_induction (P := fun x => (x t).1 = (x s).1) (fun _ _ _ => quoted_isFixed _ _ _ t s)
    (fun _ hk => Action.shown_alike hshows hbelow hk) (fun _ => rfl) (fun _ => rfl)
    (fun _ => Value.allowed_of_node v hv) extend f depth

/-- A text that comes of a generator comes as well of one that differs from it in having no limit. -/
theorem generate_unlimited {v : Value} (hv : v.IsNative) (hbelow : v.IsBelow n) {i j : Nat}
    {g h : Generator} (hg : s.generator? i = some g) (hh : t.generator? j = some h)
    (hformat : h.format = g.format.unlimited) (hdepth : h.depth = g.depth) {u : Text}
    (hu : (generate v i s).1 = .ok u) : (generate v j t).1 = .ok u := by
  have hascii : h.asciiOnly.isTrue = g.asciiOnly.isTrue := congrArg Format.asciiOnly hformat
  obtain ⟨parts, hparts, hjoin, hcheck⟩ := (generate_eq_ok hv hg).mp hu
  have hlayout : Render.layOut (.outcome h.format t) h.format h.depth v = .ok parts := by
    rw [hformat, hdepth]
    exact Render.layOut_unlimited (Value.isBelow_inherited n)
      (fun w depth hw => Render.leaf_alike hshows hw.1 hw.2 _ g.format depth)
      (fun key hkey => Render.label_alike hshows g.format hkey) hv.isFinite ⟨hv, hbelow⟩ g.depth parts
      hparts
  exact (generate_eq_ok hv hh).mpr ⟨parts, hlayout, hjoin, hascii ▸ hcheck⟩

end

/-! ## Configurations -/

/-- A mapping that is accepted gives entries that are. -/
theorem Generator.configure_reads {g : Generator} {options : Value} {made : Generator × List Value}
    (h : g.configure options = .ok made) :
    options.entries? = some options.items ∧ ∃ u, Update.initial.read options.items = .ok u := by
  unfold configure at h
  split at h
  · cases h
  · next es hes =>
    obtain ⟨u, hread, -⟩ := map_eq_ok.mp h
    have hitems : options.items = es := by rw [Value.items, hes, Option.getD_some]
    exact ⟨hitems ▸ hes, u, hitems ▸ hread⟩

section

variable (v : Value) {s : Session} {c : Value} {made : Generator × List Value}
  (hc : Generator.initial.configure c = .ok made)

include hc

/-- Over the settings for easy reading a mapping does as the entries of both in a row. -/
theorem prettyGenerate_mapping {p : Value}
    (hp : p.entries? = some (Generator.prettyEntries ++ c.items)) :
    prettyGenerate v c s = generateConfigured v p s := by
  obtain ⟨hentries, u, hu⟩ := Generator.configure_reads hc
  obtain ⟨b, hb⟩ : ∃ b, Update.initial.read Generator.prettyEntries = .ok b := ⟨_, rfl⟩
  obtain ⟨w, hw⟩ := Update.read_of_read hu b
  have happend : Update.initial.read (Generator.prettyEntries ++ c.items) = .ok w := by
    rw [Update.read_append, hb]
    exact hw
  rw [prettyGenerate, generateConfigured, Action.bind_apply, Action.bind_apply,
    merged_apply Generator.isBase_prettyEntries (.mapping hentries) happend, Action.resolve_mapping hp,
    Action.build_apply s (Generator.configure_of_read _ hp happend)]

/-- Without a limit a mapping does as its entries do with one more that lifts the limit. -/
theorem fastGenerate_mapping {key p : Value} (hkey : key.setting? = some .maxNesting)
    (hp : p.entries? = some (c.items ++ [(key, .int 0)])) :
    fastGenerate v c s = generateConfigured v p s := by
  obtain ⟨hentries, u, hu⟩ := Generator.configure_reads hc
  have happend : Update.initial.read (c.items ++ [(key, .int 0)]) =
      .ok (u.set .maxNesting (.int 0)) := by
    rw [Update.read_append, hu]
    exact Update.read_unlimited u hkey
  rw [fastGenerate_apply v (merged_apply Generator.isBase_nil (.mapping hentries) hu),
    generateConfigured, Action.bind_apply, Action.resolve_mapping hp,
    Action.build_apply s (Generator.configure_of_read _ hp happend), Generator.put_unlimited]
  rfl

end

section

variable (v : Value) {s : Session} {id : Nat} {g : Generator} (hg : s.generator? id = some g)
  (hvalid : g.IsValid)

include hg hvalid

/-- Over any settings a valid generator is copied. -/
theorem merged_generator {base : Entries} (hbase : Generator.IsBase base)
    (hread : ∃ b, Update.initial.read base = .ok b) :
    merged base (.generator id) s = Action.copy g s := by
  obtain ⟨b, hb⟩ := hread
  obtain ⟨_, _, hcopy, -⟩ := Generator.copy_of_isValid hvalid
  obtain ⟨hentries, u, hu⟩ := Generator.configure_reads hcopy
  rw [merged_apply hbase (.generator hg) (Generator.read_append_entries hvalid hbase hb hu)]
  exact (Action.build_apply s (Generator.configure_of_read _ hentries hu)).symm

theorem prettyGenerate_generator :
    prettyGenerate v (.generator id) s = (do
      let _ ← Action.copy g
      generate v id : Action Text) s := by
  obtain ⟨g', ignored, hcopy, -⟩ := Generator.copy_of_isValid hvalid
  have hadd : Action.copy g s = (.ok s.generators.size, s.adding g' ignored) :=
    Action.build_apply s hcopy
  rw [prettyGenerate, Action.bind_apply, Action.bind_apply,
    merged_generator hg hvalid Generator.isBase_prettyEntries ⟨_, rfl⟩, hadd]
  exact generate_copy hvalid hcopy v (s.generator?_adding g' ignored hg)
    (s.generator?_adding_size g' ignored)

/-- Over the settings for easy reading a valid generator comes to what it comes to alone, since nothing
knows of the copy. -/
theorem prettyGenerate_generator_outcome (hs : s.IsClosed) (hbelow : v.IsBelow s.generators.size)
    (hissued : v.IsIssued s.identities) :
    (prettyGenerate v (.generator id) s).1 = (generate v id s).1 := by
  obtain ⟨g', ignored, hcopy, -⟩ := Generator.copy_of_isValid hvalid
  have hadd : Action.copy g s = (.ok s.generators.size, s.adding g' ignored) :=
    Action.build_apply s hcopy
  have hid : id < s.generators.size := (Array.getElem?_eq_some_iff.mp hg).1
  rw [prettyGenerate_generator v hg hvalid, Action.bind_apply, hadd, Action.resume_ok]
  exact generate_push hs g' _ hbelow hissued hid

theorem fastGenerate_generator :
    fastGenerate v (.generator id) s = (do
      let copy ← Action.copy g
      Action.replace copy ((← Action.generator copy).put .maxNesting (.int 0))
      generate v copy : Action Text) s := by
  rw [fastGenerate, Action.bind_apply, Action.bind_apply,
    merged_generator hg hvalid Generator.isBase_nil ⟨_, rfl⟩]

end

/-! ## No limit -/

theorem Setting.check_unnested (s : Setting) (v : Value) : Unnested (s.check v) := by
  cases s with
  | allowNan | asciiOnly => trivial
  | maxNesting | depth =>
    simp only [check]
    split
    · exact not_false
    · split
      · exact not_false
      · trivial
  | bufferLength | indent | space | spaceBefore | objectNewline | arrayNewline =>
    simp only [check]
    split
    · trivial
    · exact not_false

theorem Update.read_unnested (u : Update) (es : Entries) : Unnested (u.read es) := by
  induction es generalizing u with
  | nil => trivial
  | cons e rest ih =>
    obtain ⟨key, v⟩ := e
    rw [read]
    split
    · next s _ =>
      have hcheck : Unnested (s.checkEntry v) := by
        unfold Setting.checkEntry
        split
        · trivial
        · exact s.check_unnested v
      split
      · next e he =>
        rw [he] at hcheck
        exact hcheck
      · exact ih _
    · split
      · exact not_false
      · exact ih _

theorem Generator.configure_unnested (g : Generator) (options : Value) :
    Unnested (g.configure options) := by
  unfold configure
  split
  · exact not_false
  · exact (Update.read_unnested _ _).map fun _ _ => trivial

/-- Without a limit nothing is too deep, whatever the configuration. -/
theorem fastGenerate_unnested {v : Value} (hv : v.IsNative) (config : Value) (s : Session) :
    Unnested (fastGenerate v config s).1 := by
  obtain ⟨g, ignored, hmerged⟩ | ⟨options, e, hconfigure, hmerged⟩ := merged_nil config s
  · rw [fastGenerate_apply v hmerged]
    exact generate_unnested hv (s.generator?_adding_size _ _) rfl
  · have hunnested := Generator.configure_unnested .initial options
    rw [hconfigure] at hunnested
    have hfault : (fastGenerate v config s).1 = .error e := Action.fst_bind_eq_error hmerged _
    rw [hfault]
    exact hunnested

/-- What configures: nothing, a mapping, and a valid generator of the session. -/
inductive Session.Accepts (s : Session) : Value → Prop
  | null : s.Accepts .null
  | mapping {config : Value} {es : Entries} (h : config.entries? = some es) : s.Accepts config
  | generator {id : Nat} {g : Generator} (hg : s.generator? id = some g) (h : g.IsValid) :
    s.Accepts (.generator id)

/-- A text that comes with a configuration comes without a limit as well. -/
theorem fastGenerate_of_generateConfigured {v : Value} (hv : v.IsNative) {s : Session} (hs : s.IsClosed)
    (hbelow : v.IsBelow s.generators.size) {config : Value} (hconfig : s.Accepts config) {t : Text}
    (ht : (generateConfigured v config s).1 = .ok t) : (fastGenerate v config s).1 = .ok t := by
  have hadding (g : Generator) (ignored : List Value) :
      s.ShowsAlike s.generators.size (s.adding g ignored) := (hs.raised g _).showsAlike
  have hentries (options : Value) {es : Entries} (hes : options.entries? = some es)
      (hoffers : s.Offers config es) (hbuild : Action.resolve config = Action.build options) :
      (fastGenerate v config s).1 = .ok t := by
    rw [generateConfigured, Action.bind_apply, hbuild] at ht
    cases hu : Update.initial.read es with
    | error e =>
      have hfault : Generator.initial.configure options = .error e := by
        rw [Generator.configure, hes]
        simp only [hu, Except.map]
      rw [Action.build, hfault] at ht
      cases ht
    | ok u =>
      rw [Action.build_apply s (Generator.configure_of_read _ hes hu)] at ht
      let g := Generator.initial.apply u
      let ignored := u.unknown.map (·.1)
      have hlifted := s.generator?_adding_size (g.put .maxNesting (.int 0)) ignored
      rw [fastGenerate_apply v (merged_apply Generator.isBase_nil hoffers hu)]
      exact generate_unlimited ((hadding g ignored).symm.trans (hadding _ _)) hv hbelow
        (s.generator?_adding_size g ignored) hlifted rfl rfl ht
  cases hconfig with
  | null => exact hentries (.dictionary []) rfl .null rfl
  | mapping hes => exact hentries config hes (.mapping hes) (Action.resolve_mapping hes)
  | @generator id g hg hvalid =>
    obtain ⟨g', ignored, hcopy, -, hkept⟩ := Generator.copy_of_isValid hvalid
    have hmerged : merged [] (.generator id) s = (.ok s.generators.size, s.adding g' ignored) := by
      rw [merged_generator hg hvalid Generator.isBase_nil ⟨_, rfl⟩]
      exact Action.build_apply s hcopy
    have hformat : (g'.put .maxNesting (.int 0)).format = g.format.unlimited :=
      congrArg Format.unlimited (Generator.format_of_kept hkept g'.depth)
    rw [fastGenerate_apply v hmerged]
    exact generate_unlimited (hadding _ _) hv hbelow hg (s.generator?_adding_size _ _) hformat
      (hkept .depth (by decide)) ht

/-! ## All together -/

/-- For all values: with an accepted mapping the two other ways to generate run as generating does with four
entries before it, for two spaces of indentation, a space and new lines, or with one entry after it that
lifts the limit. With a
valid generator of the session they run as generating does with the generator, once it has been copied,
and with a copy of it whose limit is lifted, and it stays as it was. The copy makes no difference to what
the former comes to, as long as neither the value nor the session knows of generators or identities that
are not there. For values without objects that write themselves nothing is too deep without a limit, and
whatever text comes with a configuration comes without a limit too. -/
theorem entryPoints_agree (v : Value) (s : Session) :
    (∀ (c : Value) (made : Generator × List Value), Generator.initial.configure c = .ok made →
      (∀ p : Value, p.entries? = some
          ([(.setting .indent, .str (text "  ")), (.setting .space, .str (text " ")),
            (.setting .objectNewline, .str (text "\n")),
            (.setting .arrayNewline, .str (text "\n"))] ++ c.items) →
        prettyGenerate v c s = generateConfigured v p s) ∧
      ∀ key p : Value, key.setting? = some .maxNesting →
        p.entries? = some (c.items ++ [(key, .int 0)]) →
        fastGenerate v c s = generateConfigured v p s) ∧
    (∀ (id : Nat) (g : Generator), s.generator? id = some g → g.IsValid →
      prettyGenerate v (.generator id) s = (do
        let _ ← Action.copy g
        generateConfigured v (.generator id) : Action Text) s ∧
      (s.IsClosed → v.IsBelow s.generators.size → v.IsIssued s.identities →
        (prettyGenerate v (.generator id) s).1 = (generateConfigured v (.generator id) s).1) ∧
      fastGenerate v (.generator id) s = (do
        let copy ← Action.copy g
        Action.replace copy ((← Action.generator copy).put .maxNesting (.int 0))
        generateConfigured v (.generator copy) : Action Text) s ∧
      (fastGenerate v (.generator id) s).2.generator? id = some g) ∧
    (v.IsNative →
      (∀ (config : Value) (depth limit : Number),
        (fastGenerate v config s).1 ≠ .error (.nesting depth limit)) ∧
      (s.IsClosed → v.IsBelow s.generators.size → ∀ (config : Value) (t : Text), s.Accepts config →
        (generateConfigured v config s).1 = .ok t → (fastGenerate v config s).1 = .ok t)) := by
  refine ⟨fun c made hc => ⟨fun p hp => prettyGenerate_mapping v hc hp,
    fun key p hkey hp => fastGenerate_mapping v hc hkey hp⟩, fun id g hg hvalid => ?_,
    fun hv => ⟨fun config depth limit h => ?_, fun hs hbelow config t hconfig ht =>
      fastGenerate_of_generateConfigured hv hs hbelow hconfig ht⟩⟩
  · have hsafe : Action.Ensures (s.Within none fun _ => True) (fun _ => True)
        (fastGenerate v (.generator id)) :=
      ensures_fastGenerate Generator.closed_all v.arePlaced_all (.generator id)
    exact ⟨prettyGenerate_generator v hg hvalid,
      prettyGenerate_generator_outcome v hg hvalid, fastGenerate_generator v hg hvalid,
      (hsafe s (.refl fun _ _ _ => trivial)).1.kept id g hg (by simp)⟩
  · have hunnested := fastGenerate_unnested hv config s
    rw [h] at hunnested
    exact hunnested trivial

/-- A generator that allows two levels. -/
def shallowGenerator : Generator :=
  { Generator.initial with maxNesting := .int 2, space := .str (text " ") }

/-- A list in an object. -/
def nestedSample : Value := .dictionary [(.str (text "a"), .list [.int 1])]

/-- A mapping with a key of no use. -/
def tabbedOptions : Value :=
  .dictionary [(.str (text "indent"), .str (text "\t")), (.int 2, .null)]

/-- The entries of the mapping after those for easy reading. -/
def tabbedEntries : Entries :=
  [(.setting .indent, .str (text "  ")), (.setting .space, .str (text " ")),
    (.setting .objectNewline, .str (text "\n")), (.setting .arrayNewline, .str (text "\n")),
    (.str (text "indent"), .str (text "\t")), (.int 2, .null)]

/-- The generator that these entries make. -/
def tabbedGenerator : Generator :=
  { Generator.initial with
    indent := .str (text "\t"), space := .str (text " "), objectNewline := .str (text "\n"),
    arrayNewline := .str (text "\n"), unknown := [(.int 2, .null)] }

theorem entryPoints_agree_nestedSample :
    let s := { Session.initial true with generators := #[shallowGenerator] }
    prettyGenerate nestedSample tabbedOptions s =
        generateConfigured nestedSample (.mapping .pairs tabbedEntries) s ∧
      (prettyGenerate nestedSample tabbedOptions s).1 =
        .ok (text "\x7b\n\t\"a\": [\n\t\t1\n\t]\n\x7d") ∧
      (prettyGenerate nestedSample (.dictionary []) s).1 =
        .ok (text "\x7b\n  \"a\": [\n    1\n  ]\n\x7d") ∧
      fastGenerate nestedSample tabbedOptions s = generateConfigured nestedSample
        (.mapping .pairs (tabbedOptions.items ++ [(.setting .maxNesting, .int 0)])) s ∧
      (prettyGenerate nestedSample (.generator 0) s).1 = .ok (text "\x7b\"a\": [1]\x7d") ∧
      (fastGenerate nestedSample (.generator 0) s).1 = .ok (text "\x7b\"a\": [1]\x7d") ∧
      (fastGenerate nestedSample (.generator 0) s).2.generator? 0 = some shallowGenerator := by
  intro s
  have hg : s.generator? 0 = some shallowGenerator := rfl
  have hvalid : shallowGenerator.IsValid :=
    ⟨fun t => by cases t <;> exact ⟨_, rfl⟩, List.forall_mem_nil _⟩
  have hclosed : s.IsClosed := by
    refine ⟨fun id g hid => ?_, fun id g hid => ?_, fun name id hname => ?_⟩
    · obtain ⟨hlt, rfl⟩ := Array.getElem?_eq_some_iff.mp hid
      obtain rfl : id = 0 := Nat.lt_one_iff.mp hlt
      rfl
    · obtain ⟨hlt, rfl⟩ := Array.getElem?_eq_some_iff.mp hid
      obtain rfl : id = 0 := Nat.lt_one_iff.mp hlt
      exact fun t => .inr (by cases t <;> trivial)
    · cases hname
  have hv : nestedSample.IsNative := ⟨⟨trivial, trivial⟩, trivial⟩
  have hbelow : nestedSample.IsBelow s.generators.size := rfl
  have hissued : nestedSample.IsIssued s.identities := ⟨⟨trivial, trivial, trivial⟩, trivial⟩
  have htext : (generateConfigured nestedSample (.generator 0) s).1 =
      .ok (text "\x7b\"a\": [1]\x7d") := by
    change (generate nestedSample 0 s).1 = _
    rw [generate_outcome hv hg]
    decide +kernel
  -- A mapping makes a new generator in the session, and the text comes of that.
  have hconfigured {p : Value} {es : Entries} {g : Generator} {ignored : List Value}
      (hp : p.entries? = some es) (hmade : Generator.initial.configure p = .ok (g, ignored)) :
      (generateConfigured nestedSample p s).1 = (do
        let t ← Render.Part.join
          (← Render.layOut (.outcome g.format (s.adding g ignored)) g.format g.depth nestedSample)
        checkOutput g.asciiOnly.isTrue t
        return t) := by
    rw [generateConfigured, Action.bind_apply, Action.resolve_mapping hp, Action.build_apply s hmade,
      Action.resume_ok, generate_outcome hv (s.generator?_adding_size g ignored)]
  have hagree := entryPoints_agree nestedSample s
  obtain ⟨hmapping, hgenerator, hnative⟩ := hagree
  have htabbed := hmapping tabbedOptions _ rfl
  have htabbedRun := htabbed.1 (.mapping .pairs tabbedEntries) rfl
  have htabs : (prettyGenerate nestedSample tabbedOptions s).1 =
      .ok (text "\x7b\n\t\"a\": [\n\t\t1\n\t]\n\x7d") := by
    have hmade : Generator.initial.configure (.mapping .pairs tabbedEntries) =
        .ok (tabbedGenerator, [.int 2]) := rfl
    rw [htabbedRun, hconfigured rfl hmade]
    decide +kernel
  have hspaces : (prettyGenerate nestedSample (.dictionary []) s).1 =
      .ok (text "\x7b\n  \"a\": [\n    1\n  ]\n\x7d") := by
    have hmade : Generator.initial.configure (.mapping .pairs (tabbedEntries.take 4)) =
        .ok ({ tabbedGenerator with indent := .str (text "  "), unknown := [] }, []) := rfl
    rw [(hmapping (.dictionary []) _ rfl).1 (.mapping .pairs (tabbedEntries.take 4)) rfl,
      hconfigured rfl hmade]
    decide +kernel
  obtain ⟨-, hpretty, -, hkept⟩ := hgenerator 0 shallowGenerator hg hvalid
  exact ⟨htabbedRun, htabs, hspaces, htabbed.2 (.setting .maxNesting) _ rfl rfl,
    (hpretty hclosed hbelow hissued).trans htext,
    (hnative hv).2 hclosed hbelow _ _ (.generator hg hvalid) htext, hkept⟩

end JsonWriter
