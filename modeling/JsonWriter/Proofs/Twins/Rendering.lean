import JsonWriter.Proofs.EntryPoints
import JsonWriter.Proofs.Twins.Sessions

/-!
# Rendering with twins

The writer, and the objects that write themselves, come to the same text or fault with generators that
differ in the buffer length and in unknown keys only, unless an object shows or keeps the generator that it
is handed. Main statement: `output_of_agree`.
-/

namespace JsonWriter

open JsonWriter.Action (Mirrors mirrors_pure mirrors_fail mirrors_any)
open Generator (Format)

/-- The object takes no more of the generator that it is handed than its depth, and it does not keep it. -/
def Extension.IsDiscreet : Extension Value → Prop
  | .stateText | .capture _ _ => False
  | _ => True

/-- The objects in the value that write themselves do not give their generators away. -/
abbrev Value.AreDiscreet (v : Value) : Prop := v.Hosts Extension.IsDiscreet

variable {known known' : Nat → Prop}

/-- What is read holds no other objects that write themselves. -/
theorem mirrors_reading {allowed : Extension Value → Prop} {v : Value} (hv : v.Knows known)
    (hhosts : v.Hosts allowed) :
    Mirrors known (fun known' w => w.Knows known' ∧ w.Hosts allowed) v.read v.read := by
  refine (mirrors_read v hv).returning fun s w hw => ?_
  have hread : Action.Ensures (s.Within none fun _ => True) (fun w => v.Hosts allowed → w.Hosts allowed)
      v.read := ensures_read Generator.closed_all v
  exact (hread s (.refl fun _ _ _ => trivial)).2 w hw hhosts

namespace Render

/-! ## Tokens and keys -/

/-- The text comes out the same, also where values know more generators. -/
def Mirrored (known : Nat → Prop) (x : Action Text) : Prop :=
  ∀ known', known ≤ known' → Mirrors known' (fun _ _ => True) x x

theorem mirrored_quoted (asciiOnly : Bool) (t shown : Text) :
    Mirrored known (quoted asciiOnly t shown) := by
  intro known' _
  unfold quoted
  cases Utf8.encode? t with
  | none => exact mirrors_fail _
  | some raw => exact ((mirrors_any _).counted _ _).bind fun _ _ _ _ => mirrors_pure trivial

theorem mirrored_shown {v : Value} (hv : v.Knows known) (k : Text → Action Text)
    (hk : ∀ t, Mirrored known (k t)) : Mirrored known (Action.shown v >>= k) :=
  fun _ hle => (Action.mirrors_shown (Value.Knows.mono hle v hv)).bind fun known' t hle' _ =>
    hk t known' (hle.trans hle')

theorem mirrors_label (f : Format) {key : Value} (hkey : key.Knows known) :
    Mirrors known (fun _ _ => True) (label f key) (label f key) :=
  label_induction mirrored_quoted (mirrored_shown hkey) f known (le_refl _)

/-- What objects that write themselves come to, if they do not give their generators away. -/
def Extender.Mirrors (extend extend' : Extender) : Prop :=
  ∀ (known : Nat → Prop) (e : Extension Value) (depth : Value), (Value.extension e).Knows known →
    (Value.extension e).AreDiscreet → depth.Knows known →
      Action.Mirrors known (fun _ _ => True) (extend e depth) (extend' e depth)

variable {extend extend' : Extender}

theorem mirrors_leaf (hextend : extend.Mirrors extend') (f : Format) {v depth : Value}
    (hv : v.Knows known) (hhosts : v.AreDiscreet) (hd : depth.Knows known) :
    Mirrors known (fun _ _ => True) (leaf extend f v depth) (leaf extend' f v depth) := by
  by_cases hnode : ∃ e, v.node = .extension e
  · obtain ⟨e, he⟩ := hnode
    have hknows := Value.deep_knows.node v hv
    have hnodeHosts := Value.deep_hosts.node v hhosts
    rw [he] at hknows hnodeHosts
    rw [leaf, leaf, he]
    exact hextend known e depth hknows hnodeHosts hd
  · rw [not_exists] at hnode
    rw [leaf_congr hnode extend extend']
    exact leaf_induction mirrored_quoted (mirrored_shown hv) (fun _ _ _ => mirrors_pure trivial)
      (fun _ _ _ => mirrors_fail _) hnode extend' f depth known (le_refl _)

/-! ## Containers -/

/-- Key and value know no generators but those, and the value gives none away. -/
structure Entry.Knows (known : Nat → Prop) (e : Entry) : Prop where
  key : ∀ k ∈ e.key?, k.Knows known
  value : e.value.Knows known
  discreet : e.value.AreDiscreet

theorem Entry.Knows.mono (hle : known ≤ known') {e : Entry} (he : e.Knows known) : e.Knows known' :=
  ⟨fun k hk => Value.Knows.mono hle k (he.key k hk), Value.Knows.mono hle _ he.value, he.discreet⟩

theorem knows_container? {v : Value} (hv : v.Knows known) (hhosts : v.AreDiscreet) {shape : Shape}
    {entries : List Entry} (h : container? v = some (shape, entries)) : ∀ e ∈ entries, e.Knows known := by
  have hknows := Value.deep_knows.node v hv
  have hnodeHosts := Value.deep_hosts.node v hhosts
  unfold container? at h
  split at h
  · next items hnode =>
    obtain ⟨-, rfl⟩ := Prod.mk.inj (Option.some.inj h)
    rw [hnode] at hknows hnodeHosts
    exact List.forall_mem_map.mpr fun w hw => ⟨by simp, hknows w hw, hnodeHosts w hw⟩
  · next entries hnode =>
    obtain ⟨-, rfl⟩ := Prod.mk.inj (Option.some.inj h)
    rw [hnode] at hknows hnodeHosts
    exact List.forall_mem_map.mpr fun e he =>
      ⟨fun k hk => Option.some.inj hk ▸ (hknows e he).1, (hknows e he).2, (hnodeHosts e he).2⟩
  · cases h

theorem mirrors_lead (f : Format) (fr : Frame) {key? : Option Value} (hkey : ∀ k ∈ key?, k.Knows known) :
    Mirrors known (fun _ _ => True) (lead f fr key?) (lead f fr key?) := by
  refine (mirrors_any _).bind fun known' before hle _ => ?_
  cases key? with
  | none => exact mirrors_pure trivial
  | some key =>
    have hlabel := mirrors_label f (Value.Knows.mono hle key (hkey key rfl))
    have hmember : Mirrors known' (fun _ _ => True) (member f key) (member f key) :=
      hlabel.bind fun _ _ _ _ => (mirrors_any f.colon).bind fun _ _ _ _ => mirrors_pure trivial
    exact hmember.bind fun _ _ _ _ => mirrors_pure trivial

mutual

theorem mirrors_print (hextend : extend.Mirrors extend') (f : Format) (p : Visit)
    {known : Nat → Prop} (hp : p.value.Knows known) (hhosts : p.value.AreDiscreet)
    (hd : p.depth.Knows known) :
    Mirrors known (fun _ _ => True) (print extend f p) (print extend' f p) := by
  match hv : container? p.value with
  | none =>
    rw [print_leaf hv, print_leaf hv]
    exact (mirrors_leaf hextend f hp hhosts hd).bind fun _ _ _ _ => mirrors_pure trivial
  | some (shape, entries) =>
    match he : enter f p.value shape entries p.depth p.room with
    | .error e =>
      rw [print_refused hv he, print_refused hv he]
      exact mirrors_fail e
    | .ok fr =>
      rw [print_entered hv he, print_entered hv he]
      have hrest : ∀ e ∈ fr.rest, e.Knows known := (enter_eq_ok he).2 ▸ knows_container? hp hhosts hv
      exact (mirrors_printFrame hextend f fr hrest).bind fun _ _ _ _ => mirrors_pure trivial
termination_by steps p.room p.value
decreasing_by
  rw [steps_of_enter hv he]
  omega

theorem mirrors_printFrame (hextend : extend.Mirrors extend') (f : Format) (fr : Frame)
    {known : Nat → Prop} (hfr : ∀ e ∈ fr.rest, e.Knows known) :
    Mirrors known (fun _ _ => True) (printFrame extend f fr) (printFrame extend' f fr) := by
  match hr : fr.rest with
  | [] =>
    rw [printFrame_closed hr, printFrame_closed hr]
    exact mirrors_any _
  | entry :: rest =>
    obtain ⟨hentry, hrest⟩ := List.forall_mem_cons.mp (hr ▸ hfr)
    rw [printFrame_entry hr, printFrame_entry hr]
    -- An entry may make generators that the values after it do not know.
    refine (mirrors_lead f fr hentry.key).bind fun known₁ _ hle _ => ?_
    have hvalue : (fr.visit entry).value.Knows known₁ := (hentry.mono hle).value
    have hdepth : (fr.visit entry).depth.Knows known₁ :=
      Value.knows_of_isSimple _ (Value.isSimple_number _)
    refine (mirrors_print hextend f (fr.visit entry) hvalue hentry.discreet hdepth).bind
      fun known₂ _ hle' _ => ?_
    have hlater : ∀ e ∈ (fr.advance rest).rest, e.Knows known₂ :=
      fun e he => (hrest e he).mono (hle.trans hle')
    exact (mirrors_printFrame hextend f (fr.advance rest) hlater).bind fun _ _ _ _ => mirrors_pure trivial
termination_by fr.steps
decreasing_by
  all_goals simp only [Frame.steps, Frame.visit, Frame.advance, hr, total_cons]; omega

end

end Render

/-! ## Objects that write themselves -/

/-- Rendering comes to the same in sessions with twins, unless generators are given away. -/
def Renderer.Mirrors (render : Renderer) : Prop :=
  ∀ (known : Nat → Prop) (v : Value) (id : Nat) (depth : Option Value), v.Knows known → v.AreDiscreet →
    (∀ d ∈ depth, d.Knows known) →
      Action.Mirrors known (fun _ _ => True) (render v id depth) (render v id depth)

theorem mirrors_generateWith {render : Renderer} (hrender : render.Mirrors) {v : Value}
    (hv : v.Knows known) (hhosts : v.AreDiscreet) (id : Nat) :
    Mirrors known (fun _ _ => True) (generateWith render v id) (generateWith render v id) := by
  refine (((hrender known v id none hv hhosts (by simp)).bind fun known' t _ _ => ?_).counted _ _).logged
  refine Mirrors.bind_generator id fun g h hgh _ => ?_
  have hascii : h.asciiOnly = g.asciiOnly := hgh.get .asciiOnly (by decide)
  rw [hascii]
  exact (mirrors_any _).bind fun _ _ _ _ => mirrors_pure trivial

namespace Extension

/-- What is left to render or generate knows no generators but those, and gives none away. -/
def Plan.Knows (known : Nat → Prop) : Plan → Prop
  | .answer _ => True
  | .render v _ depth => v.Knows known ∧ v.AreDiscreet ∧ ∀ d ∈ depth, d.Knows known
  | .generate v _ => v.Knows known ∧ v.AreDiscreet

theorem mirrors_settings (id : Nat) {settings : List (Value × Value)}
    (h : Value.EntriesKnow known settings) :
    Mirrors known (fun _ _ => True)
      (settings.forM fun (name, value) => do
        let name ← name.read
        Action.set id name (← value.read))
      (settings.forM fun (name, value) => do
        let name ← name.read
        Action.set id name (← value.read)) := by
  induction settings generalizing known with
  | nil => exact mirrors_pure trivial
  | cons e rest ih =>
    have hset : Mirrors known (fun _ _ => True)
        (do
          let name ← e.1.read
          Action.set id name (← e.2.read))
        (do
          let name ← e.1.read
          Action.set id name (← e.2.read)) :=
      (mirrors_read e.1 h.1.1).bind fun _ name hle hname =>
        (mirrors_read e.2 (Value.Knows.mono hle e.2 h.1.2)).bind fun _ value hle' _ =>
          Action.mirrors_set id (Value.Knows.mono hle' name hname) value
    exact hset.bind fun _ _ hle _ => ih (Value.EntriesKnow.mono hle rest h.2)

theorem mirrors_plan (id : Nat) {e : Extension Value} (he : (Value.extension e).Knows known)
    (hhosts : (Value.extension e).AreDiscreet) :
    Mirrors known (fun known' plan => plan.Knows known') (e.plan id) (e.plan id) := by
  obtain ⟨hdiscreet, hwritten⟩ := hhosts
  cases e with
  | literal v => exact ((mirrors_read v he).mono fun _ _ _ => trivial).map
  | point x y =>
    refine (mirrors_reading he.1 hwritten.1).bind fun _ x' hle hx => ?_
    refine (mirrors_reading (Value.Knows.mono hle y he.2) hwritten.2).bind fun _ y' hle' hy => ?_
    have hx' := Value.Knows.mono hle' x' hx.1
    exact mirrors_pure ⟨⟨⟨trivial, hx'⟩, ⟨trivial, hy.1⟩, trivial⟩, ⟨trivial, hx.2⟩, ⟨trivial, hy.2⟩, trivial⟩
  | depthText =>
    refine Mirrors.bind_generator id fun g h hgh hg => ?_
    have hdepth : h.depth = g.depth := hgh.get .depth (by decide)
    rw [hdepth]
    exact (Action.mirrors_shown (hg .depth)).bind fun _ _ _ _ => mirrors_pure trivial
  | stateText => exact hdiscreet.elim
  | delegate v depth =>
    refine (mirrors_reading he.1 hwritten).bind fun _ w hle hw => ?_
    refine (mirrors_readOptional depth (Value.OptionKnows.mono hle depth he.2)).bind fun _ d hle' hd => ?_
    exact mirrors_pure ⟨Value.Knows.mono hle' w hw.1, hw.2, Value.knows_given? hd⟩
  | reconfigured v config =>
    refine (mirrors_reading he.1 hwritten).bind fun _ w hle hw => ?_
    refine (mirrors_readOptional config (Value.OptionKnows.mono hle config he.2)).bind fun _ c hle' _ => ?_
    refine (Action.mirrors_resolve _).bind fun _ _ hle'' _ => ?_
    exact mirrors_pure ⟨Value.Knows.mono (hle'.trans hle'') w hw.1, hw.2⟩
  | mutator settings v =>
    refine (mirrors_settings id he.1).bind fun _ _ hle _ => ?_
    exact (mirrors_reading (Value.Knows.mono hle v he.2) hwritten).bind fun _ _ _ hw => mirrors_pure hw
  | capture slot v => exact hdiscreet.elim
  | raiser error message => exact mirrors_fail _

theorem mirrors_perform {render : Renderer} (hrender : render.Mirrors) {plan : Plan}
    (h : plan.Knows known) :
    Mirrors known (fun _ _ => True) (plan.perform render) (plan.perform render) := by
  cases plan with
  | answer v => exact mirrors_pure trivial
  | render v id depth => exact (hrender known v id depth h.1 h.2.1 h.2.2).map
  | generate v id => exact (mirrors_generateWith hrender h.1 h.2 id).map

end Extension

/-! ## Rendering and generating -/

/-- What comes after a generator is looked up is the same for a twin. -/
theorem mirrors_rendering {level : Nat} {g h : Generator} (hgh : g.Twins h) (hg : g.Knows known)
    (hwrite : Render.Extender.Mirrors (Extension.writeAt g level) (Extension.writeAt h level)) {v : Value}
    (hv : v.Knows known) (hhosts : v.AreDiscreet) {depth : Option Value}
    (hd : ∀ d ∈ depth, d.Knows known) :
    Mirrors known (fun _ _ => True)
      (do
        let parts ← Action.counted (text "render") 0
          (Render.parts (Extension.writeAt g level) g.format v (depth.getD g.depth))
        Action.ofExcept (Render.Part.join parts))
      (do
        let parts ← Action.counted (text "render") 0
          (Render.parts (Extension.writeAt h level) h.format v (depth.getD h.depth))
        Action.ofExcept (Render.Part.join parts)) := by
  have hdepth : h.depth = g.depth := hgh.get .depth (by decide)
  have hstart : (depth.getD g.depth).Knows known := by
    cases depth with
    | none => exact hg .depth
    | some d => exact hd d rfl
  rw [hgh.format_eq, hdepth, Render.parts_eq_print, Render.parts_eq_print]
  have hprint := Render.mirrors_print hwrite g.format
    ⟨v, depth.getD g.depth, Render.roomFor g.format (depth.getD g.depth)⟩ hv hhosts hstart
  exact (hprint.counted _ _).bind fun _ _ _ _ => mirrors_any _

theorem mirrors_renderAt_of_writeAt {level : Nat} (hwrite : ∀ g h : Generator, g.Twins h →
      Render.Extender.Mirrors (Extension.writeAt g level) (Extension.writeAt h level)) :
    (renderAt level).Mirrors := by
  intro known v id depth hv hhosts hd
  rw [renderAt_eq]
  exact Mirrors.bind_generator id fun g h hgh hg =>
    mirrors_rendering hgh hg (hwrite g h hgh) hv hhosts hd

theorem mirrors_writeAt (level : Nat) (g h : Generator) (hgh : g.Twins h) :
    Render.Extender.Mirrors (Extension.writeAt g level) (Extension.writeAt h level) := by
  -- An object takes one level, and renders with the levels below it.
  induction level generalizing g h with
  | zero => exact fun _ _ _ _ _ _ => mirrors_fail _
  | succ level ih =>
    intro known e depth he hhosts hd
    rw [Extension.writeAt_eq, Extension.writeAt_eq]
    have hprepare : Mirrors known (fun known' plan => plan.Knows known') (e.prepare g depth)
        (e.prepare h depth) :=
      (Extension.mirrors_hand hgh hd).bind fun _ id hle _ =>
        Extension.mirrors_plan id (Value.Knows.mono hle _ he) hhosts
    refine hprepare.bind fun _ plan _ hplan => ?_
    exact (Extension.mirrors_perform (mirrors_renderAt_of_writeAt ih) hplan).bind fun _ _ _ _ =>
      mirrors_any _

theorem mirrors_render : render.Mirrors :=
  fun known v id depth hv hhosts hd =>
    mirrors_renderAt_of_writeAt (mirrors_writeAt v.rank) known v id depth hv hhosts hd

theorem mirrors_generate {v : Value} (hv : v.Knows known) (hhosts : v.AreDiscreet) (id : Nat) :
    Mirrors known (fun _ _ => True) (generate v id) (generate v id) :=
  mirrors_generateWith mirrors_render hv hhosts id

/-! ## Generators in one session -/

/-- The text is rendered, and checked by a generator that is there as it was. -/
theorem generate_eq_checked (v : Value) {s : Session} {id : Nat} {g : Generator}
    (hg : s.generator? id = some g) : (generate v id s).1 = (do
      let t ← (render v id none s).1
      checkOutput g.asciiOnly.isTrue t
      return t) := by
  have hsafe : Action.Ensures (s.Within none fun _ => True) (fun _ => True) (render v id none) :=
    ensures_render Generator.closed_all v id none v.arePlaced_all fun _ _ => trivial
  have hkept := (hsafe s (.refl fun _ _ _ => trivial)).1
  rw [generate, generateWith, Action.fst_logged]
  simp only [Action.counted]
  rw [Action.bind_apply]
  generalize render v id none s = run at hkept
  obtain ⟨f | t, s'⟩ := run
  · rfl
  · have hs' := hkept.kept id g hg (by simp)
    rw [Action.resume_ok, Action.bind_apply, Action.generator, hs', Action.resume_ok, Option.getD_some,
      Action.bind_apply, Action.ofExcept]
    cases hcheck : checkOutput g.asciiOnly.isTrue t with
    | error f =>
      simp only [bind, Except.bind, hcheck]
      rfl
    | ok _ =>
      simp only [bind, Except.bind, hcheck]
      rfl

/-- The number is that of a generator in the session. -/
def Session.Has (s : Session) (id : Nat) : Prop := id < s.generators.size

section

variable {s : Session} {i j : Nat} {g h : Generator} {v : Value}

theorem render_twins (hs : s.Knows known) (hi : s.generator? i = some g) (hj : s.generator? j = some h)
    (hgh : g.Twins h) (hv : v.Knows known) (hdiscreet : v.AreDiscreet) {depth : Option Value}
    (hd : ∀ d ∈ depth, d.Knows known) : (render v j depth s).1 = (render v i depth s).1 := by
  have hrest := mirrors_rendering hgh (hs.generator i g hi) (mirrors_writeAt v.rank g h hgh) hv hdiscreet hd
  rw [render, renderAt_eq, renderAt_eq, Action.bind_apply, Action.bind_apply, Action.generator,
    Action.generator, hi, hj, Action.resume_ok, Action.resume_ok]
  exact (hrest s s hs.mirrors).1

theorem generate_twins (hs : s.Knows known) (hi : s.generator? i = some g) (hj : s.generator? j = some h)
    (hgh : g.Twins h) (hv : v.Knows known) (hdiscreet : v.AreDiscreet) :
    (generate v j s).1 = (generate v i s).1 := by
  have hascii : h.asciiOnly = g.asciiOnly := hgh.get .asciiOnly (by decide)
  have hrender : (render v j none s).1 = (render v i none s).1 :=
    render_twins hs hi hj hgh hv hdiscreet (by simp)
  rw [generate_eq_checked v hi, generate_eq_checked v hj, hascii, hrender]

/-- Over the same base both are copied to twins. -/
theorem merged_twins {base : Entries} (hbase : Generator.IsBase base)
    (hread : ∃ b, Update.initial.read base = .ok b) (hi : s.generator? i = some g)
    (hj : s.generator? j = some h) (hg : g.IsValid) (hh : h.IsValid) (hgh : g.Twins h) :
    ∃ g' h' ignored ignored',
      merged base (.generator i) s = (.ok s.generators.size, s.adding g' ignored) ∧
      merged base (.generator j) s = (.ok s.generators.size, s.adding h' ignored') ∧
      g'.Twins h' ∧ g'.Knows known := by
  obtain ⟨g', ignored, hcopy, -⟩ := Generator.copy_of_isValid hg
  obtain ⟨h', ignored', hcopy', -⟩ := Generator.copy_of_isValid hh
  obtain ⟨f, hf, -⟩ | ⟨made, made', hmade, hmade', htwins⟩ := hgh.copy.eq_or
  · rw [hcopy] at hf
    cases hf
  · obtain rfl := Except.ok.inj (hcopy.symm.trans hmade)
    obtain rfl := Except.ok.inj (hcopy'.symm.trans hmade')
    have hclosed := Generator.closed_knows known
    refine ⟨g', h', ignored, ignored', ?_, ?_, htwins, hclosed.configure hclosed.initial hcopy⟩
    · rw [merged_generator hi hg hbase hread]
      exact Action.build_apply s hcopy
    · rw [merged_generator hj hh hbase hread]
      exact Action.build_apply s hcopy'

/-- Unknown keys and the buffer length are never seen in what comes out: generators that agree on all other
settings come to the same text, or to the same fault. The value may hold objects that write themselves,
other than those that show or keep the generator that they are handed, and what they set or hold may be any
generators in the session. -/
theorem output_of_agree (hs : s.Knows s.Has) (hi : s.generator? i = some g) (hj : s.generator? j = some h)
    (hg : g.IsValid) (hh : h.IsValid) (hagree : ∀ o : Setting, o ≠ .bufferLength → h.get o = g.get o)
    (hv : v.Knows s.Has) (hdiscreet : v.AreDiscreet) :
    (generateConfigured v (.generator j) s).1 = (generateConfigured v (.generator i) s).1 ∧
    (prettyGenerate v (.generator j) s).1 = (prettyGenerate v (.generator i) s).1 ∧
    (fastGenerate v (.generator j) s).1 = (fastGenerate v (.generator i) s).1 ∧
    ∀ depth, (∀ d ∈ depth, d.Knows s.Has) → (render v j depth s).1 = (render v i depth s).1 := by
  have hgh : g.Twins h := ⟨hagree, .inr ⟨hg.isQuiet, hh.isQuiet⟩⟩
  refine ⟨generate_twins hs hi hj hgh hv hdiscreet, ?_, ?_,
    fun depth hd => render_twins hs hi hj hgh hv hdiscreet hd⟩
  · obtain ⟨g', h', ignored, ignored', hmerged, hmerged', htwins, hknows⟩ :=
      merged_twins Generator.isBase_prettyEntries ⟨_, rfl⟩ hi hj hg hh hgh
    have hmirrors : (s.adding g' ignored).Mirrors s.Has (s.adding h' ignored') :=
      hs.mirrors.adding hknows htwins (fun _ hid => .inl hid) (le_refl _)
    rw [prettyGenerate, prettyGenerate, Action.bind_apply, Action.bind_apply, hmerged, hmerged',
      Action.resume_ok, Action.resume_ok]
    exact (mirrors_generate hv hdiscreet s.generators.size _ _ hmirrors).1
  · obtain ⟨g', h', ignored, ignored', hmerged, hmerged', htwins, hknows⟩ :=
      merged_twins Generator.isBase_nil ⟨_, rfl⟩ hi hj hg hh hgh
    have hunlimited := (Generator.closed_knows s.Has).unlimited hknows
    have hmirrors : (s.adding (g'.put .maxNesting (.int 0)) ignored).Mirrors s.Has
        (s.adding (h'.put .maxNesting (.int 0)) ignored') :=
      hs.mirrors.adding hunlimited (htwins.put (by decide) _) (fun _ hid => .inl hid) (le_refl _)
    rw [fastGenerate_apply v hmerged, fastGenerate_apply v hmerged']
    exact (mirrors_generate hv hdiscreet s.generators.size _ _ hmirrors).1

end

/-- A generator with a buffer length and unknown keys of its own. -/
def keepingGenerator (bufferLength : Int) (unknown : Entries) : Generator :=
  { Generator.initial with space := .str (text " "), bufferLength := .int bufferLength, unknown := unknown }

/-- Two such generators, one of them in a slot. -/
def keepingSession : Session :=
  { Session.initial true with
    generators := #[keepingGenerator 4096 [(.str (text "a"), .int 1)],
      keepingGenerator 7 [(.int 5, .null), (.str (text "INDENT"), .list [])]]
    slots := [(text "kept", 1)] }

/-- Objects inside each other that are handed generators, set them and take others. -/
def handingSample : Value :=
  .list [.extension (.point (.int 1) (.extension (.literal (.str (text "0"))))),
    .extension (.mutator [(.str (text "buffer_initial_length"), .int 9), (.str (text "indent"), .str [])]
      (.list [.extension .depthText])),
    .extension (.reconfigured (.dictionary [(.int 5, .extension (.delegate (.float .nan) (some (.int 2))))])
      (some (.described (.slot (text "kept")))))]

/-- Objects that write their depth and a number, with the identities that they have once they are read. -/
def depthSample : Value :=
  .own 2 (.dictionary [(.str (text "a"), .own 0 (.extension .depthText)),
    (.str (text "b"), .own 1 (.extension (.literal (.str (text "0")))))])

/-- Renders such objects further in. -/
def deeperUse : Extension Value :=
  .delegate (.dictionary [(.str (text "a"), .extension .depthText),
    (.str (text "b"), .extension (.literal (.str (text "0"))))]) (some (.int 2))

theorem render_deeperUse : (render (.extension deeperUse) 0 none keepingSession).1 =
    .ok (text "\x7b\"a\": 3,\"b\": 0\x7d") := by
  let g := keepingGenerator 4096 [(.str (text "a"), .int 1)]
  -- The object is handed a copy of the generator, which ignores the unknown key anew.
  let called : Session := { keepingSession with
    generators := keepingSession.generators.push g, identities := 3
    log := #[.ignored (.str (text "a"))] }
  have hcopy : g.copy = .ok (g, [.str (text "a")]) := rfl
  have hprepare : deeperUse.prepare g (.int 0) keepingSession =
      (.ok (.render depthSample 2 (some (.int 2))), called) := by
    rw [Extension.prepare, Action.bind_apply, Extension.hand_apply hcopy]
    rfl
  have hfinite : depthSample.IsFinite := by
    simp [depthSample, Value.dictionary, Value.IsFinite, Value.IsTree, Value.EntriesAreTrees]
  have hinner : (renderAt 1 depthSample 2 (some (.int 2)) called).1 =
      .ok (text "\x7b\"a\": 3,\"b\": 0\x7d") := by
    rw [(renderAt_eq_layOut hfinite).2 1 2 (some (.int 2))]
    decide +kernel
  have hrank : (Value.extension deeperUse).rank = 2 := rfl
  rw [render, hrank, fst_renderAt_of_prepare rfl rfl none hprepare, Extension.Plan.perform,
    Action.fst_map, hinner]
  rfl

/-- The first sample comes to the same with both generators, and what renders further in comes to a text. -/
theorem output_handingSample :
    let s := keepingSession
    (generateConfigured handingSample (.generator 1) s).1 =
      (generateConfigured handingSample (.generator 0) s).1 ∧
    (prettyGenerate handingSample (.generator 1) s).1 = (prettyGenerate handingSample (.generator 0) s).1 ∧
    (fastGenerate handingSample (.generator 1) s).1 = (fastGenerate handingSample (.generator 0) s).1 ∧
    (render handingSample 1 (some (.int 3)) s).1 = (render handingSample 0 (some (.int 3)) s).1 ∧
    (render (.extension deeperUse) 0 none s).1 = .ok (text "\x7b\"a\": 3,\"b\": 0\x7d") ∧
    (render (.extension deeperUse) 1 none s).1 = .ok (text "\x7b\"a\": 3,\"b\": 0\x7d") := by
  intro s
  have hknows (n : Int) (es : Entries) (known : Nat → Prop) : (keepingGenerator n es).Knows known :=
    fun o => by cases o <;> trivial
  have hs : s.Knows s.Has := by
    refine ⟨fun _ hid => hid, fun id g hg => ?_, fun name id hid => ?_⟩
    · obtain ⟨hlt, rfl⟩ := Array.getElem?_eq_some_iff.mp hg
      obtain rfl | rfl : id = 0 ∨ id = 1 := by
        have hsize : id < 2 := hlt
        omega
      · exact hknows _ _ _
      · exact hknows _ _ _
    · obtain ⟨e, he, rfl⟩ := Option.map_eq_some_iff.mp hid
      obtain rfl := List.mem_singleton.mp (List.mem_of_find?_eq_some he)
      exact Nat.lt_succ_self 1
  have hvalid (n : Int) (es : Entries) (hes : ∀ e ∈ es, e.1.IsUnknown) : (keepingGenerator n es).IsValid :=
    ⟨fun o => by cases o <;> exact ⟨_, rfl⟩, hes⟩
  have hv : handingSample.Knows s.Has := by
    simp [handingSample, Value.list, Value.dictionary, Value.Knows, Value.AllKnow, Value.EntriesKnow,
      Value.ExtensionKnows, Value.OptionKnows, Value.DescriptionKnows]
  have hdiscreet : handingSample.AreDiscreet := by
    simp [handingSample, Value.list, Value.dictionary, Value.Hosts, Value.AllHost, Value.EntriesHost,
      Value.ExtensionHosts, Extension.IsDiscreet]
  have hw : (Value.extension deeperUse).Knows s.Has := by
    simp [deeperUse, Value.dictionary, Value.Knows, Value.EntriesKnow, Value.ExtensionKnows,
      Value.OptionKnows]
  have hdiscreet' : (Value.extension deeperUse).AreDiscreet := by
    simp [deeperUse, Value.dictionary, Value.Hosts, Value.EntriesHost, Value.ExtensionHosts,
      Extension.IsDiscreet]
  have hagree {v : Value} (hv : v.Knows s.Has) (hdiscreet : v.AreDiscreet) :=
    output_of_agree hs (i := 0) (j := 1) rfl rfl
      (hvalid _ _ (List.forall_mem_singleton.mpr ⟨rfl, rfl⟩))
      (hvalid _ _ (List.forall_mem_cons.mpr ⟨⟨rfl, rfl⟩, List.forall_mem_singleton.mpr ⟨rfl, rfl⟩⟩))
      (fun o ho => by cases o <;> first | rfl | exact absurd rfl ho) hv hdiscreet
  obtain ⟨hgenerate, hpretty, hfast, hrender⟩ := hagree hv hdiscreet
  obtain ⟨-, -, -, hdeeper⟩ := hagree hw hdiscreet'
  exact ⟨hgenerate, hpretty, hfast, hrender _ fun d hd => by cases hd; trivial, render_deeperUse,
    (hdeeper none fun d hd => by cases hd).trans render_deeperUse⟩

end JsonWriter
