import JsonWriter.Proofs.Delegation.Sharing
import JsonWriter.Proofs.Session.Generating
import JsonWriter.Proofs.Validity

/-!
# Rendering with objects that pass values on

An object that writes itself is given a copy of the generator at the depth of the object, and renders
with it. As the copy renders as the generator does there, nothing of the text or the fault is lost.
Main statement: `render_inline`, each object that only passes a value on can be replaced by the value.
-/

namespace JsonWriter

open JsonWriter.Action (Settles)
open Generator (Format)
open Render (inlineText)

/-! ## Depths -/

/-- A whole number proper that is not negative. -/
def Value.IsDepth (depth : Value) : Prop := ∃ n, depth.wholeNumber? = some n ∧ 0 ≤ n

namespace Value

theorem IsDepth.check {depth : Value} (h : depth.IsDepth) :
    Setting.depth.check depth = .ok depth := by
  obtain ⟨n, hn, hle⟩ := h
  have hneg : ¬ n < 0 := by omega
  simp [Setting.check, hn, hneg]

theorem isDepth_of_check {depth w : Value} (h : Setting.depth.check depth = .ok w) :
    depth.IsDepth := by
  unfold IsDepth
  cases hn : depth.wholeNumber? with
  | none => simp [Setting.check, hn] at h
  | some n =>
    refine ⟨n, rfl, Int.not_lt.mp fun hneg => ?_⟩
    simp [Setting.check, hn, hneg] at h

theorem int?_of_wholeNumber? {v : Value} {n : Int} (h : v.wholeNumber? = some n) :
    v.int? = some n := by
  unfold wholeNumber? at h
  unfold int?
  split at h <;> simp_all

theorem IsDepth.succ {depth : Value} (h : depth.IsDepth) {inner : Number}
    (hinner : depth.succ = .ok inner) : inner.value.IsDepth := by
  obtain ⟨n, hn, hle⟩ := h
  rw [succ_of_int? (int?_of_wholeNumber? hn)] at hinner
  obtain rfl := Except.ok.inj hinner
  exact ⟨n + 1, rfl, by omega⟩

end Value

/-! ## The generator that an object is given -/

namespace Generator

/-- The settings pass their checks, and what is set between tokens can stand in output. -/
structure IsUsable (g : Generator) : Prop where
  valid : g.IsValid
  layout : g.HasLayout (CodePoint.Fits g.asciiOnly.isTrue)

theorem IsUsable.format {g : Generator} (h : g.IsUsable) :
    g.format.HasLayout (CodePoint.Fits g.format.asciiOnly) := h.layout.format

theorem IsUsable.isDepth {g : Generator} (h : g.IsUsable) : g.depth.IsDepth := by
  obtain ⟨w, hw⟩ := h.valid.setting .depth
  exact Value.isDepth_of_check hw

/-- A copy of a usable generator at some depth is usable, and it lays out and limits as before. -/
theorem IsUsable.copy {g : Generator} (h : g.IsUsable) {depth : Value} (hd : depth.IsDepth) :
    ∃ g' ignored, g.copy = .ok (g', ignored) ∧ (g'.put .depth depth).IsUsable ∧
      (g'.put .depth depth).format =
        { g.format with maxNesting := Setting.maxNesting.kept g.maxNesting } := by
  obtain ⟨g', ignored, hcopy, hvalid, hkept⟩ := copy_of_isValid h.valid
  refine ⟨g', ignored, hcopy, ⟨put_isValid hvalid ⟨_, hd.check⟩, fun t ht => ?_⟩,
    format_of_kept hkept depth⟩
  have hascii : (g'.put .depth depth).asciiOnly.isTrue = g.asciiOnly.isTrue :=
    congrArg Format.asciiOnly (format_of_kept hkept depth)
  have hlayout : t ≠ .depth ∧ t ≠ .bufferLength ∧ t ≠ .maxNesting ∧
      ∀ v, t.checked v = v := by
    revert ht
    cases t <;> simp [Setting.layout, Setting.checked]
  obtain ⟨hdepth, hbuffer, hnesting, hchecked⟩ := hlayout
  have hget : (g'.put .depth depth).get t = g.get t := by
    rw [get_put, if_neg hdepth, hkept t hbuffer, Setting.kept, if_neg fun hlimit => hnesting hlimit.1,
      hchecked]
  rw [hget, hascii]
  exact h.layout t ht

end Generator

/-! ## Rendering in turn -/

/-- Values with no more levels of objects than given come to what they come to with the objects
replaced. -/
def RendersWithin (level : Nat) : Prop :=
  ∀ {v : Value}, v.DelegatesWithin level → ∀ {s : Session} {id : Nat} {g : Generator},
    s.generator? id = some g → g.IsUsable → ∀ depth : Option Value, (∀ d ∈ depth, d.IsDepth) →
      Settles s.Keeps (renderAt level v id depth) (inlineText g.format v (depth.getD g.depth))

/-- Objects with no more levels of objects than given write what they pass on. -/
def WritesWithin (level : Nat) : Prop :=
  ∀ {e : Extension Value}, (Value.extension e).DelegatesWithin level → ∀ {g : Generator}, g.IsUsable →
    ∀ {depth : Value}, depth.IsDepth → ∀ s : Session,
      Settles s.Keeps (Extension.writeAt g level e depth) (inlineText g.format (.extension e) depth)

namespace Value.Numbered

variable {m n : Nat} {v w : Value} (h : Numbered m n v w)

include h

theorem delegatesWithin {level : Nat} (hv : v.DelegatesWithin level) : w.DelegatesWithin level :=
  ⟨h.delegates hv.1, h.rank_eq.trans_le hv.2⟩

theorem inlineText_eq (hv : v.IsFinite) (f : Format) (depth : Value) :
    inlineText f w depth = inlineText f v depth := by
  rw [inlineText, inlineText, Render.layOut_numbered f hv h]

end Value.Numbered

section

variable {s : Session} {id : Nat} {g : Generator} (hg : s.generator? id = some g)
  (husable : g.IsUsable)

include hg husable

/-- Text that is generated is what is rendered: no character of it has to be refused. -/
theorem generateWith_settles {render : Renderer} {v : Value} (hv : v.Delegates)
    (hrender : Settles s.Keeps (render v id none) (inlineText g.format v g.depth)) :
    Settles s.Keeps (generateWith render v id) (inlineText g.format v g.depth) := by
  have hpass : inlineText g.format v g.depth = (do
      let t ← inlineText g.format v g.depth
      checkOutput g.asciiOnly.isTrue t
      return t) := by
    cases ht : inlineText g.format v g.depth with
    | error e => rfl
    | ok t =>
      have hfits : ∀ c ∈ t, c.Fits g.asciiOnly.isTrue :=
        (Render.layOut_inline husable.format hv g.depth).forall_mem ht
      have hcheck : checkOutput g.asciiOnly.isTrue t = .ok () := checkOutput_of_fits hfits
      simp only [bind, Except.bind, hcheck, pure, Except.pure]
  rw [hpass]
  refine ((Settles.bind hrender fun t _ => ?_).counted (fun _ name size h => h.record name size)
    _ _).logged
  refine Action.settles_generator (fun t ht => by rw [ht id g hg, Option.getD_some]) ?_
  exact (Action.settles_ofExcept _).bind fun _ _ => Action.settles_pure _

variable {level : Nat} (hlevel : RendersWithin level)

include hlevel

theorem generateWith_renderAt_settles {v : Value} (hv : v.DelegatesWithin level) :
    Settles s.Keeps (generateWith (renderAt level) v id) (inlineText g.format v g.depth) :=
  generateWith_settles hg husable hv.1 (hlevel hv hg husable none (by simp))

/-- An object returns the text of the value that it passes on. -/
theorem call_settles {e : Extension Value} (he : (Value.extension e).DelegatesWithin (level + 1)) :
    Settles s.Keeps (e.call (renderAt level) id)
      ((inlineText g.format (.extension e) g.depth).map Value.str) := by
  obtain ⟨he, hrank⟩ := he
  replace hrank : Value.rankExtension e ≤ level := Nat.le_of_succ_le_succ hrank
  cases e with
  | point x y =>
    obtain ⟨⟨hx, hxd⟩, hy, hyd⟩ := he
    refine Action.settles_read hx fun m n x' hx' => Action.settles_read hy fun m' n' y' hy' => ?_
    obtain ⟨hxrank, hyrank⟩ := Nat.max_le.mp hrank
    obtain ⟨hxd', hxrank'⟩ := hx'.delegatesWithin ⟨hxd, hxrank⟩
    obtain ⟨hyd', hyrank'⟩ := hy'.delegatesWithin ⟨hyd, hyrank⟩
    have hwithin : (Value.dictionary [(.str (text "x"), x'), (.str (text "y"), y')]).DelegatesWithin
        level := by
      refine ⟨⟨fun _ _ => rfl, hxd', fun _ _ => rfl, hyd', trivial⟩, ?_⟩
      simp [Value.dictionary, Value.rank, Value.rankEntries, hxrank', hyrank']
    have hlayOut : Render.layOut (.known g.format) g.format g.depth
        (Value.dictionary [(.str (text "x"), x'), (.str (text "y"), y')]).inline =
          Render.layOut (.known g.format) g.format g.depth (Value.extension (.point x y)).inline := by
      simp only [Value.dictionary, Value.inline, Value.inlineEntries, Value.inlineExtension]
      rw [Render.layOut_of_mapping _ _ _ rfl, Render.layOut_of_mapping _ _ _ rfl]
      simp only [List.map_cons, List.map_nil, Render.layOut_numbered _ hxd.isFinite hx',
        Render.layOut_numbered _ hyd.isFinite hy']
    have hgenerate := generateWith_renderAt_settles hg husable hlevel hwithin
    rw [inlineText, hlayOut] at hgenerate
    exact hgenerate.map Value.str
  | delegate v depth =>
    cases depth with
    | some depth => exact he.elim
    | none =>
      obtain ⟨hv, hvd⟩ := he
      refine Action.settles_read hv fun m n w hw => ?_
      have hrender := hlevel (hw.delegatesWithin ⟨hvd, hrank⟩) hg husable none (by simp)
      rw [Option.getD_none, hw.inlineText_eq hvd.isFinite] at hrender
      exact hrender.map Value.str
  | mutator settings v =>
    cases settings with
    | cons setting rest => exact he.elim
    | nil =>
      obtain ⟨hv, hvd⟩ := he
      refine Action.settles_read hv fun m n w hw => ?_
      have hgenerate := generateWith_renderAt_settles hg husable hlevel
        (hw.delegatesWithin ⟨hvd, hrank⟩)
      rw [hw.inlineText_eq hvd.isFinite] at hgenerate
      exact hgenerate.map Value.str
  | _ => exact he.elim

end

/-- An object is called in a session with one generator more, the copy at the depth. -/
theorem write_apply (render : Renderer) {g g' : Generator} {ignored : List Value}
    (hcopy : g.copy = .ok (g', ignored)) (e : Extension Value) (depth : Value) (s : Session) :
    ∃ s', s.Keeps s' ∧ s'.generator? s.generators.size = some (g'.put .depth depth) ∧
      Extension.write render g e depth s =
        (e.call render s.generators.size >>= fun result => Action.ofExcept (e.returned result)) s' := by
  obtain ⟨log, hlog⟩ := Action.configured_apply g' ignored s
  let generators := (s.generators.push g').setIfInBounds s.generators.size (g'.put .depth depth)
  refine ⟨{ s with log := log, generators := generators }, fun id h hid => ?_, ?_, ?_⟩
  · have hlt : id < s.generators.size := (Array.getElem?_eq_some_iff.mp hid).1
    simp only [Session.generator?, generators] at hid ⊢
    rw [Array.getElem?_setIfInBounds_ne hlt.ne', Array.getElem?_push, if_neg hlt.ne]
    exact hid
  · simp [Session.generator?, generators]
  · have hgenerator : (s.generators.push g')[s.generators.size]? = some g' := by simp
    simp only [Extension.write, Action.copy, hcopy, Action.bind_apply, hlog, Action.resume_ok,
      Action.add, Action.generator, Session.generator?, hgenerator, Option.getD_some, Action.replace,
      Extension.ofExcept_returned]
    rfl

theorem writesWithin_zero : WritesWithin 0 := by
  intro e he
  exact absurd he.2 (Nat.not_succ_le_zero _)

theorem writesWithin_succ {level : Nat} (hlevel : RendersWithin level) : WritesWithin (level + 1) := by
  intro e he g husable depth hd s t ht
  obtain ⟨g', ignored, hcopy, husable', hformat⟩ := husable.copy hd
  obtain ⟨t', hkeeps, hid, hwrite⟩ := write_apply (renderAt level) hcopy e depth t
  have htext : inlineText (g'.put .depth depth).format (.extension e) (g'.put .depth depth).depth =
      inlineText g.format (.extension e) depth := by
    have hlimit := Generator.checkNesting_kept (husable.valid.setting .maxNesting)
    have hfinite := (Value.inline_isNative _ he.1).1.isFinite
    rw [hformat, inlineText, Render.layOut_limit _ hlimit hfinite]
    rfl
  have hcall := call_settles hid husable' hlevel he
  rw [htext] at hcall
  have hreturned : inlineText g.format (.extension e) depth =
      (inlineText g.format (.extension e) depth).map Value.str >>= e.returned := by
    cases inlineText g.format (.extension e) depth <;> rfl
  obtain ⟨hr, ht'⟩ := (hcall.bind fun _ _ => Action.settles_ofExcept _) t' (.refl t')
  rw [Extension.writeAt, hwrite, hreturned]
  exact ⟨hr, (ht.trans hkeeps).trans ht'⟩

/-- What the writer does is settled if what objects do is. -/
theorem acting_settlesTo {level : Nat} (hwrites : WritesWithin level) {g : Generator}
    (husable : g.IsUsable) (s : Session) :
    (Render.Scribe.acting (Extension.writeAt g level) g.format).SettlesTo s.Keeps
      (fun v => v.DelegatesWithin level) Value.IsSteady Value.IsDepth
      (Render.delegatedToken g.format) (Render.Scribe.known g.format).key where
  settle := Action.settles_ofExcept
  token v depth hscalar hv hd := by
    simp only [Render.Scribe.acting, Render.delegatedToken]
    split
    · next he =>
      obtain ⟨e, he⟩ := Value.isExtension_iff.mp he
      have hwithin : (Value.extension e).DelegatesWithin level := by
        rw [Value.DelegatesWithin, ← he, Value.delegates_content, Value.rank_content]
        exact hv
      have hleaf : Render.leaf (Extension.writeAt g level) g.format v depth =
          Extension.writeAt g level e depth := by
        rw [Render.leaf, ← Value.node_content, he]
        rfl
      have htext : inlineText g.format v depth = inlineText g.format (.extension e) depth := by
        rw [inlineText, Value.inline_of_extension v he]
        rfl
      rw [hleaf, htext]
      exact hwrites hwithin husable hd s
    · next he =>
      have hnative := (Value.inline_isNative v hv.1).1
      rw [Value.inline_of_scalar hscalar (Bool.eq_false_iff.mpr he)] at hnative
      have hnode (e : Extension Value) : v.node ≠ .extension e := Value.allowed_of_node v hnative
      rw [Render.leaf_congr hnode _ fun _ _ => Action.fail .endless]
      exact Render.leaf_settles _ _ hv.1 hscalar hnode depth s _
  key key hkey := Render.label_settles _ hkey s _
  inner depth inner hd hinner := hd.succ hinner

theorem rendersWithin_of_writesWithin {level : Nat} (hwrites : WritesWithin level) :
    RendersWithin level := by
  intro v hv s id g hg husable depth hdepth
  have hd : (depth.getD g.depth).IsDepth := by
    cases depth with
    | none => exact husable.isDepth
    | some d => exact hdepth d rfl
  have hlayOut := Render.layOut_settles_of (acting_settlesTo hwrites husable s) g.format
    (Value.DelegatesWithin.inherited level) hv.1.isFinite hv hd
  have hcounted := hlayOut.counted (fun _ name size h => h.record name size) (text "render") 0
  rw [renderAt_of_finite hv.1.isFinite, inlineText,
    ← (Render.layOut_inline husable.format hv.1 _).join_eq]
  refine Action.settles_generator (fun t ht => by rw [ht id g hg, Option.getD_some]) ?_
  exact hcounted.bind fun parts _ => Action.settles_ofExcept _

/-- However deep objects are nested in what they pass on, values come to what they come to with the
objects replaced. -/
theorem rendersWithin (level : Nat) : RendersWithin level := by
  -- An object takes one level, and renders with the levels below it.
  induction level with
  | zero => exact rendersWithin_of_writesWithin writesWithin_zero
  | succ level ih => exact rendersWithin_of_writesWithin (writesWithin_succ ih)

/-- An object that only passes a value on, with `render` or with `generate`, can be replaced by the
value: the text or the fault is the same, at any depth and however such objects are nested. -/
theorem render_inline {v : Value} (hv : v.Delegates) {s : Session} {id : Nat} {g : Generator}
    (hg : s.generator? id = some g) (hvalid : g.IsValid)
    (hlayout : g.HasLayout (CodePoint.Fits g.asciiOnly.isTrue)) (depth : Option Value)
    (hdepth : ∀ d ∈ depth, d.IsDepth) :
    (render v id depth s).1 = (render v.inline id depth s).1 ∧
      (generate v id s).1 = (generate v.inline id s).1 := by
  have husable : g.IsUsable := ⟨hvalid, hlayout⟩
  obtain ⟨hnative, hinline⟩ := Value.inline_isNative v hv
  have htext (f : Format) (depth : Value) : inlineText f v.inline depth = inlineText f v depth := by
    rw [inlineText, Value.inline_of_isNative _ hnative, inlineText]
  have hrender {v : Value} (hv : v.Delegates) : Settles s.Keeps (render v id depth)
      (inlineText g.format v (depth.getD g.depth)) :=
    rendersWithin v.rank ⟨hv, Nat.le_refl _⟩ hg husable depth hdepth
  have hgenerate {v : Value} (hv : v.Delegates) : Settles s.Keeps (generate v id)
      (inlineText g.format v g.depth) :=
    generateWith_settles hg husable hv
      (rendersWithin v.rank ⟨hv, Nat.le_refl _⟩ hg husable none (by simp))
  constructor
  · rw [(hrender hv s (.refl s)).1, (hrender hinline s (.refl s)).1, htext]
  · rw [(hgenerate hv s (.refl s)).1, (hgenerate hinline s (.refl s)).1, htext]

/-- A line for each entry, ASCII, and four levels. -/
def linedGenerator : Generator :=
  { Generator.initial with
    indent := .str (text " "), objectNewline := .str (text "\n"), arrayNewline := .str (text "\n"),
    asciiOnly := .bool true, maxNesting := .int 4 }

/-- A point, one of its coordinates another object that passes a tuple on, and an object that passes a
dictionary with the point on. -/
def passedSample : Value :=
  let point := .extension
    (.point (.int 1) (.extension (.delegate (.sequence .tuple [.str [.ofNat 0xE9]]) none)))
  .list [point, .extension (.mutator [] (.dictionary [(.str (text "p"), point)]))]

/-- Outside of the list the second point is within the limit, and inside it is not. -/
theorem render_passedSample :
    let s := { Session.initial true with generators := #[linedGenerator] }
    passedSample.Delegates ∧ linedGenerator.IsValid ∧
      (render passedSample 0 (some (.int 0)) s).1 =
        .ok (text ("[\n \x7b\n  \"x\":1,\n  \"y\":[\n   \"\\u00e9\"\n  ]\n \x7d,\n \x7b\n" ++
          "  \"p\":\x7b\n   \"x\":1,\n   \"y\":[\n    \"\\u00e9\"\n   ]\n  \x7d\n \x7d\n]")) ∧
      (render passedSample 0 (some (.int 1)) s).1 = .error (.nesting (.whole 5) (.whole 4)) := by
  intro s
  have hpoint : Value.ExtensionDelegates (.point (.int 1)
      (.extension (.delegate (.sequence .tuple [.str [.ofNat 0xE9]]) none))) :=
    ⟨⟨trivial, trivial⟩, trivial, ⟨trivial, trivial⟩, trivial, trivial⟩
  have hdistinct (v : Value) : Keyed.IsDistinct [(Value.str (text "p"), v)] :=
    ⟨List.forall_mem_singleton.mpr rfl, List.pairwise_singleton _ _⟩
  have hv : passedSample.Delegates :=
    ⟨hpoint, ⟨⟨⟨trivial, trivial, trivial⟩, hdistinct _⟩, fun _ _ => rfl, hpoint, trivial⟩, trivial⟩
  have hvalid : linedGenerator.IsValid :=
    ⟨fun t => by cases t <;> exact ⟨_, rfl⟩, List.forall_mem_nil _⟩
  have hlayout : linedGenerator.HasLayout (CodePoint.Fits linedGenerator.asciiOnly.isTrue) := by
    simp only [Generator.HasLayout, Setting.layout, List.forall_mem_cons]
    exact ⟨⟨_, rfl, Render.fits_text (by decide)⟩, ⟨_, rfl, List.forall_mem_nil _⟩,
      ⟨_, rfl, List.forall_mem_nil _⟩, ⟨_, rfl, Render.fits_text (by decide)⟩,
      ⟨_, rfl, Render.fits_text (by decide)⟩, List.forall_mem_nil _⟩
  have hnative := (Value.inline_isNative passedSample hv).1
  have hg : s.generator? 0 = some linedGenerator := rfl
  have hrender (d : Int) (hd : 0 ≤ d) := (render_inline hv hg hvalid hlayout (some (.int d)) fun _ h =>
    Option.some.inj h ▸ ⟨d, rfl, hd⟩).1
  refine ⟨hv, hvalid, ?_, ?_⟩
  · rw [hrender 0 (by decide), render, (renderAt_settles _ hnative _ _ _ _ (.refl _)).1]
    decide +kernel
  · rw [hrender 1 (by decide), render, (renderAt_settles _ hnative _ _ _ _ (.refl _)).1]
    decide +kernel

end JsonWriter
