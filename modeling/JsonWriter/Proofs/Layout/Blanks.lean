import JsonWriter.Proofs.Json.Places
import JsonWriter.Proofs.Success

/-!
# Blanks between tokens

The settings between tokens add blanks to the compact text, and to nothing else in it. They change the
outcome in one way only: lines may be too deep to be indented. Main statement: `generate_squeeze`.
-/

namespace JsonWriter

open Generator (Format)
open Json (IsBlank AllBlank IsToken IsWhole squeeze)

/-- The settings that decide on what is written, apart from what is set between tokens. -/
def Setting.deciding : List Setting := [maxNesting, allowNan, asciiOnly, depth]

/-! ## Tokens -/

theorem Value.scalar?_ne {describe : List Nat → Nat → Option Text} {v : Value} {j : Json}
    (h : v.scalar? describe = some j) :
    (∀ items, j ≠ .array items) ∧ ∀ members, j ≠ .object members := by
  unfold scalar? at h
  split at h
  case h_6 =>
    obtain ⟨t, -, rfl⟩ := Option.map_eq_some_iff.mp h
    exact ⟨nofun, nofun⟩
  case h_7 | h_8 | h_9 => cases h
  all_goals
    obtain rfl := Option.some.inj h
    exact ⟨nofun, nofun⟩

namespace Render

theorem leaf_isToken {extend : Extender} {f : Format} {v depth : Value} {s : Session} {t : Text}
    (hv : v.IsNative) (hscalar : container? v = none) (h : (leaf extend f v depth s).1 = .ok t) :
    IsToken t := by
  obtain ⟨j, hj, hspells⟩ := leaf_spells hv hscalar h
  obtain ⟨harray, hobject⟩ := Value.scalar?_ne hj
  exact Json.isToken_of_spells hspells harray hobject

theorem label_isToken {f : Format} {key : Value} {s : Session} {t : Text}
    (h : (label f key s).1 = .ok t) : IsToken t := by
  obtain ⟨name, -, hspells⟩ := label_spells h
  exact .inr ⟨name, hspells⟩

/-- Tokens and keys do not depend on the settings between them. -/
theorem outcome_congr {f c : Format} (hascii : c.asciiOnly = f.asciiOnly)
    (hnan : c.allowNan = f.allowNan) (s : Session) : Scribe.outcome c s = Scribe.outcome f s := by
  have hleaf (v depth : Value) : leaf (fun _ _ => Action.fail .endless) c v depth =
      leaf (fun _ _ => Action.fail .endless) f v depth := by
    simp only [leaf, float, hascii, hnan]
  have hlabel (key : Value) : label c key = label f key := by simp only [label, hascii]
  simp only [Scribe.outcome, hleaf, hlabel]

/-! ## Outcomes but for blanks -/

/-- The same fault, or parts that join to a text and, but for the blanks outside its strings, to the same
one. With an excuse the first may be an overflow. -/
inductive Squeezes (excuse : Prop) : Except Fault (List Part) → Except Fault (List Part) → Prop
  | error (e : Fault) : Squeezes excuse (.error e) (.error e)
  | ok {parts parts' : List Part} {t : Text} (h : Part.join parts = .ok t) (hwhole : IsWhole t)
    (h' : Part.join parts' = .ok (squeeze t)) : Squeezes excuse (.ok parts) (.ok parts')
  | overflow (o : OverflowFault) (h : excuse) (r : Except Fault (List Part)) :
    Squeezes excuse (.error (.overflow o)) r

section

variable {excuse : Prop} {r r' q q' : Except Fault (List Part)}

theorem squeezes_text {t u : Text} (hwhole : IsWhole t) (h : squeeze t = u) :
    Squeezes excuse (.ok [.text t]) (.ok [.text u]) := by
  subst h
  exact .ok (Part.join_text t) hwhole (Part.join_text (squeeze t))

theorem squeezes_bind {α : Type} (x : Except Fault α) {k k' : α → Except Fault (List Part)}
    (h : ∀ a, x = .ok a → Squeezes excuse (k a) (k' a)) : Squeezes excuse (x >>= k) (x >>= k') := by
  cases x with
  | error e => exact .error e
  | ok a => exact h a rfl

theorem Squeezes.append (h : Squeezes excuse r r') (hq : Squeezes excuse q q') :
    Squeezes excuse (do return (← r) ++ (← q)) (do return (← r') ++ (← q')) := by
  cases h with
  | error e => exact .error e
  | overflow o h r => exact .overflow o h _
  | ok h hwhole h' =>
    cases hq with
    | error e => exact .error e
    | overflow o h r => exact .overflow o h _
    | ok hq hwhole' hq' =>
      refine .ok (Part.join_append_eq_ok.mpr ⟨_, _, h, hq, rfl⟩) (hwhole.append hwhole') ?_
      rw [Json.squeeze_append hwhole]
      exact Part.join_append_eq_ok.mpr ⟨_, _, h', hq', rfl⟩

end

/-! ## Layouts but for blanks -/

theorem margin_eq_error {f : Format} {indent : Text} (hindent : f.indent.text? = some indent)
    {newline : Text} {n : Int} {e : Fault} (h : margin f newline (.whole n) = .error e) :
    ∃ o, e = .overflow o := by
  simp only [margin, Value.times, Value.number?_of_text? hindent, Value.repeater?_of_text? hindent,
    Number.whole?, Value.repetitions, Value.checkLength] at h
  split at h
  · cases h
  · split at h
    · exact ⟨_, (Except.error.inj h).symm⟩
    · simp only [Except.bind] at h
      split at h
      · cases h
      · exact ⟨_, (Except.error.inj h).symm⟩

section

variable {excuse : Prop} {f c : Format} (hf : f.HasLayout IsBlank) (hc : c.HasLayout fun _ => False)
  {tokens : Value → Value → Except Fault Text} {keys : Value → Except Fault Text}
  {indent : Text} (hindent : f.indent.text? = some indent)

include hindent

/-- What is made of a margin is right if it is right where there is one. -/
theorem map_margin_squeezes {newline : Text} {n : Int} {k : List Part → List Part}
    {r : Except Fault (List Part)} (hmargin : excuse ∨ Succeeds (margin f newline (.whole n)))
    (h : ∀ parts, (margin f newline (.whole n)).map k = .ok parts → Squeezes excuse (.ok parts) r) :
    Squeezes excuse ((margin f newline (.whole n)).map k) r := by
  cases hm : margin f newline (.whole n) with
  | ok parts => exact h _ (by rw [hm]; rfl)
  | error e =>
    obtain ⟨o, rfl⟩ := margin_eq_error hindent hm
    rw [hm] at hmargin
    exact .overflow o (hmargin.resolve_right (not_succeeds _)) r

include hf

theorem gap_squeezes {newline : Text} (hnewline : AllBlank newline) {n : Int}
    (hmargin : excuse ∨ Succeeds (margin f newline (.whole n))) (first : Bool) :
    Squeezes excuse (gap f newline (.whole n) first) (gap c [] (.whole n) first) := by
  refine map_margin_squeezes hindent hmargin fun parts hparts => ?_
  obtain ⟨t, ht, hblank⟩ := gap_joins hf hnewline hparts
  cases first with
  | true =>
    refine .ok ht (Json.isWhole_of_ne_quote (Json.quote_not_mem_of_allBlank hblank)) ?_
    exact congrArg Except.ok (Json.squeeze_of_allBlank hblank).symm
  | false =>
    obtain ⟨hwhole, hsqueeze⟩ :=
      Json.squeeze_around (c := .ofChar ',') (List.forall_mem_nil _) hblank (by decide)
    exact .ok ht hwhole (congrArg Except.ok hsqueeze.symm)

theorem ending_squeezes {newline : Text} (hnewline : AllBlank newline) {n : Int}
    (hmargin : excuse ∨ Succeeds (margin f newline (.whole n))) (shape : Shape) :
    Squeezes excuse (ending f shape newline (.whole n)) (ending c shape [] (.whole n)) := by
  refine map_margin_squeezes hindent hmargin fun parts hparts => ?_
  obtain ⟨t, ht, hblank⟩ := ending_joins hf hnewline hparts
  have hbracket : shape.closing ≠ Json.quote ∧ ¬ IsBlank shape.closing := by cases shape <;> decide
  obtain ⟨hwhole, hsqueeze⟩ := Json.squeeze_around hblank (List.forall_mem_nil _) hbracket
  exact .ok ht hwhole (congrArg Except.ok hsqueeze.symm)

theorem fill_squeezes {newline : Text} (hnewline : AllBlank newline) {n : Int}
    {xs ys : List (Except Fault (List Part))} (h : List.Forall₂ (Squeezes excuse) xs ys)
    (hmargin : xs ≠ [] → excuse ∨ Succeeds (margin f newline (.whole n))) (first : Bool) :
    Squeezes excuse (fill (.knowing tokens keys) f newline (.whole n) first xs)
      (fill (.knowing tokens keys) c [] (.whole n) first ys) := by
  induction h generalizing first with
  | nil => exact .ok rfl rfl rfl
  | cons hx _ ih =>
    have hmargin := hmargin (List.cons_ne_nil _ _)
    have hgap := gap_squeezes (c := c) hf hindent hnewline hmargin first
    have happend := (hgap.append hx).append (ih (fun _ => hmargin) false)
    simpa only [fill, Scribe.knowing, bind_assoc, pure_bind] using happend

include hc

theorem block_squeezes (hnesting : c.maxNesting = f.maxNesting) (shape : Shape) {depth : Value} {d : Int}
    (hd : depth.int? = some d) {entries entries' : Number → List (Except Fault (List Part))}
    (hroom : excuse ∨ f.HasRoom indent shape d (entries (.whole (d + 1))).length)
    (h : List.Forall₂ (Squeezes excuse) (entries (.whole (d + 1))) (entries' (.whole (d + 1)))) :
    Squeezes excuse (block (.knowing tokens keys) f shape depth entries)
      (block (.knowing tokens keys) c shape depth entries') := by
  obtain ⟨newline, hnewline, hblank⟩ := hf.newline shape
  obtain ⟨none, hnone, hempty⟩ := hc.newline shape
  obtain rfl : none = [] := List.eq_nil_iff_forall_not_mem.mpr hempty
  rw [hasRoom_iff hindent hnewline] at hroom
  have hbracket : shape.opening ≠ Json.quote ∧ ¬ IsBlank shape.opening := by cases shape <;> decide
  obtain ⟨hwhole, hsqueeze⟩ := Json.squeeze_around (List.forall_mem_nil _) hblank hbracket
  have hbody : Squeezes excuse
      (fill (.knowing tokens keys) f newline (.whole (d + 1)) true (entries (.whole (d + 1))))
      (fill (.knowing tokens keys) c [] (.whole (d + 1)) true (entries' (.whole (d + 1)))) :=
    fill_squeezes hf hindent hblank h (fun hne => hroom.imp_right fun hroom => hroom.1 hne) true
  have hending : Squeezes excuse (ending f shape newline (Number.whole (d + 1)).pred)
      (ending c shape [] (Number.whole (d + 1)).pred) := by
    rw [Number.pred_succ]
    exact ending_squeezes hf hindent hblank (hroom.imp_right And.right) shape
  have happend := ((squeezes_text hwhole hsqueeze).append hbody).append hending
  simp only [bind_assoc, pure_bind] at happend
  simp only [block, Scribe.knowing, hnesting, hnewline, hnone, Value.succ_of_int? hd]
  exact squeezes_bind _ fun _ _ => happend

omit hindent in
theorem pair_squeezes {key : Value} (hkey : ∀ t, keys key = .ok t → IsToken t)
    {r r' : Except Fault (List Part)} (h : Squeezes excuse r r') :
    Squeezes excuse (pair (.knowing tokens keys) f key r) (pair (.knowing tokens keys) c key r') := by
  obtain ⟨before, after, hcolon, hbefore, hafter⟩ := hf.colon
  obtain ⟨before', after', hcolon', hbefore', hafter'⟩ := hc.colon
  obtain rfl : before' = [] := List.eq_nil_iff_forall_not_mem.mpr hbefore'
  obtain rfl : after' = [] := List.eq_nil_iff_forall_not_mem.mpr hafter'
  obtain ⟨hwhole, hsqueeze⟩ :=
    Json.squeeze_around (c := .ofChar ':') hbefore hafter (by decide)
  simp only [pair, Scribe.knowing, hcolon, hcolon']
  refine squeezes_bind _ fun label hlabel => ?_
  have htoken := hkey label hlabel
  have hlabel : Squeezes excuse (.ok [.text label]) (.ok [.text label]) :=
    squeezes_text htoken.isWhole htoken.squeeze_eq
  exact (hlabel.append (squeezes_text hwhole hsqueeze)).append h

/-- The layout of a value is the compact one but for blanks, unless its lines cannot be indented. -/
theorem layOut_squeezes (hnesting : c.maxNesting = f.maxNesting)
    (htoken : ∀ v depth t, v.IsNative → container? v = none → tokens v depth = .ok t → IsToken t)
    (hkey : ∀ key t, keys key = .ok t → IsToken t) {v : Value} (hv : v.IsNative) {depth : Value} {d : Int}
    (hd : depth.int? = some d)
    (hroom : ∀ k w, v.Nested k w → excuse ∨ f.Indents indent (d + k) w) :
    Squeezes excuse (layOut (.knowing tokens keys) f depth v)
      (layOut (.knowing tokens keys) c depth v) := by
  have hinner (d : Int) (k : Nat) : d + (k + 1 : Nat) = d + 1 + k := by omega
  induction v, hv using Value.tree_induction generalizing depth d with
  | scalar v h hscalar =>
    rw [layOut_of_scalar _ _ _ hscalar, layOut_of_scalar _ _ _ hscalar]
    simp only [token, Scribe.knowing]
    refine squeezes_bind _ fun t ht => ?_
    have htoken := htoken v depth t h hscalar ht
    exact squeezes_text htoken.isWhole htoken.squeeze_eq
  | sequence v h kind items hcontent ih =>
    have hnode : v.node = .array items := by rw [← Value.node_content, hcontent]; rfl
    rw [Value.forall_nested_of_array hnode] at hroom
    obtain ⟨hself, hitems⟩ := hroom
    rw [Format.indents_of_array hnode, Int.natCast_zero, Int.add_zero] at hself
    rw [layOut_of_sequence _ _ _ hcontent, layOut_of_sequence _ _ _ hcontent]
    refine block_squeezes hf hc hindent hnesting .array hd (by rwa [List.length_map]) ?_
    simp only [List.forall₂_map_left_iff, List.forall₂_map_right_iff, List.forall₂_same]
    intro w hw
    exact (ih w hw).2 rfl fun k u hu => hinner d k ▸ hitems w hw k u hu
  | mapping v h kind entries hcontent ih =>
    have hnode : v.node = .object entries := by rw [← Value.node_content, hcontent]; rfl
    rw [Value.forall_nested_of_object hnode] at hroom
    obtain ⟨hself, hentries⟩ := hroom
    rw [Format.indents_of_object hnode, Int.natCast_zero, Int.add_zero] at hself
    rw [layOut_of_mapping _ _ _ hcontent, layOut_of_mapping _ _ _ hcontent]
    refine block_squeezes hf hc hindent hnesting .object hd (by rwa [List.length_map]) ?_
    simp only [List.forall₂_map_left_iff, List.forall₂_map_right_iff, List.forall₂_same]
    intro e he
    obtain ⟨_, ih⟩ := ih e he
    exact pair_squeezes hf hc (hkey e.1) (ih rfl fun k u hu => hinner d k ▸ hentries e he k u hu)
  | binary v h kind data hcontent ih =>
    have hnode : v.node = .object (Value.rawEntries kind data) := by
      rw [← Value.node_content, hcontent]
      rfl
    have hraw : (Value.dictionary (Value.rawEntries kind data)).node =
      .object (Value.rawEntries kind data) := rfl
    rw [layOut_of_binary _ _ _ hcontent, layOut_of_binary _ _ _ hcontent]
    refine ih.2 hd ?_
    rw [Value.forall_nested_of_object hnode] at hroom
    rw [Value.forall_nested_of_object hraw]
    simpa only [Format.indents_of_object hnode, Format.indents_of_object hraw] using hroom

end

end Render

/-! ## Generating -/

/-- Some container in the value has lines that cannot be indented at the depth where it stands. -/
def Generator.IsCramped (g : Generator) (indent : Text) (d : Int) (v : Value) : Prop :=
  ∃ k w, v.Nested k w ∧ ¬ g.format.Indents indent (d + k) w

/-- A generator with blanks between tokens comes to the outcome of the compact one that is the same
otherwise, but for blanks outside strings, unless there is an overflow. -/
theorem generate_compact {v : Value} (hv : v.IsNative) {s : Session} {i k : Nat} {g c : Generator}
    (hg : s.generator? i = some g) (hc : s.generator? k = some c) (hblank : g.HasLayout IsBlank)
    (hcompact : c.HasLayout fun _ => False)
    (hsame : ∀ t ∈ Setting.deciding, c.get t = g.get t)
    {d : Int} (hd : g.depth.int? = some d) {indent : Text} (hindent : g.indent.text? = some indent) :
    (generate v i s).1.map squeeze = (generate v k s).1 ∨
      (∃ o, (generate v i s).1 = .error (.overflow o)) ∧ g.IsCramped indent d v := by
  simp only [Setting.deciding, List.forall_mem_cons, Generator.get] at hsame
  obtain ⟨hnesting, hnan, hascii, hdepth, -⟩ := hsame
  have hasciiBlank (c : CodePoint) (hc : IsBlank c) : c.IsAscii := by
    simp only [IsBlank] at hc
    simp only [CodePoint.IsAscii]
    omega
  have hroom (n : Nat) (w : Value) (hw : v.Nested n w) :
      g.IsCramped indent d v ∨ g.format.Indents indent (d + n) w := by
    by_cases h : g.format.Indents indent (d + n) w
    · exact .inr h
    · exact .inl ⟨n, w, hw, h⟩
  have hlayout : Render.Squeezes (g.IsCramped indent d v)
      (Render.layOut (.outcome g.format s) g.format g.depth v)
      (Render.layOut (.outcome g.format s) c.format g.depth v) :=
    Render.layOut_squeezes hblank.format hcompact.format hindent hnesting
      (fun _ _ _ => Render.leaf_isToken) (fun _ _ => Render.label_isToken) hv hd hroom
  have hscribe : Render.Scribe.outcome c.format s = .outcome g.format s :=
    Render.outcome_congr (by simp only [Generator.format, hascii]) (by simp only [Generator.format, hnan]) s
  rw [generate_eq_join hv hg ((hblank.mono hasciiBlank).fits _),
    generate_eq_join hv hc ((hcompact.mono fun _ h => h.elim).fits _), hscribe, hdepth]
  generalize Render.layOut (.outcome g.format s) g.format g.depth v = r at hlayout ⊢
  generalize Render.layOut (.outcome g.format s) c.format g.depth v = r' at hlayout ⊢
  cases hlayout with
  | error e => exact .inl rfl
  | ok h _ h' => exact .inl (by simp only [bind, Except.bind, h, h', Except.map])
  | overflow o h r => exact .inr ⟨⟨o, rfl⟩, h⟩

/-- Of generators that differ in the blanks between tokens only, each comes to the fault of the one that
has none, or to its text with blanks outside strings; or there is an overflow, and then some container in
the value cannot be indented. -/
theorem generate_squeeze {v : Value} (hv : v.IsNative) {s : Session} {i j k : Nat} {g h c : Generator}
    (hg : s.generator? i = some g) (hh : s.generator? j = some h) (hc : s.generator? k = some c)
    (hblank : g.HasLayout IsBlank) (hblank' : h.HasLayout IsBlank) (hcompact : c.HasLayout fun _ => False)
    (hsame : ∀ t ∈ Setting.deciding,
      c.get t = g.get t ∧ c.get t = h.get t)
    {d : Int} (hd : c.depth.int? = some d) {indent indent' : Text}
    (hindent : g.indent.text? = some indent) (hindent' : h.indent.text? = some indent') :
    ((generate v i s).1.map squeeze = (generate v k s).1 ∨
      (∃ o, (generate v i s).1 = .error (.overflow o)) ∧ g.IsCramped indent d v) ∧
    ((generate v j s).1.map squeeze = (generate v k s).1 ∨
      (∃ o, (generate v j s).1 = .error (.overflow o)) ∧ h.IsCramped indent' d v) := by
  obtain ⟨hdepth, hdepth'⟩ := hsame .depth (by decide)
  simp only [Generator.get] at hdepth hdepth'
  exact ⟨generate_compact hv hg hc hblank hcompact (fun t ht => (hsame t ht).1) (hdepth ▸ hd) hindent,
    generate_compact hv hh hc hblank' hcompact (fun t ht => (hsame t ht).2) (hdepth' ▸ hd) hindent'⟩

/-- A compact generator, one with new lines and one with spaces. -/
def blankGenerators : Array Generator :=
  #[.initial,
    { Generator.initial with
      indent := .str (text "\t"), space := .str (text " "), objectNewline := .str (text "\r\n"),
      arrayNewline := .str (text "\n") },
    { Generator.initial with spaceBefore := .str (text "  "), arrayNewline := .str (text " ") }]

/-- A key with a quote and a bracket in it, a string of a bracket, blanks and a backslash, and an empty
list. -/
def blankSample : Value :=
  .dictionary [(.str (text "\" ]"), .sequence .tuple [.str (text "[ \t \\"), .list []])]

def compactText : Text := text "\x7b\"\\\" ]\":[\"[ \\t \\\\\",[]]\x7d"

def tallText : Text :=
  text "\x7b\r\n\t\"\\\" ]\": [\n\t\t\"[ \\t \\\\\",\n\t\t[\n\n\t\t]\n\t]\r\n\x7d"

def wideText : Text := text "\x7b\"\\\" ]\"  :[ \"[ \\t \\\\\", [  ] ]\x7d"

theorem generate_blankSample :
    let s := { Session.initial true with generators := blankGenerators }
    blankSample.IsNative ∧ (generate blankSample 0 s).1 = .ok compactText ∧
      (generate blankSample 1 s).1 = .ok tallText ∧ (generate blankSample 2 s).1 = .ok wideText ∧
      squeeze tallText = compactText ∧ squeeze wideText = compactText := by
  intro s
  have hv : blankSample.IsNative := ⟨⟨trivial, trivial, trivial⟩, trivial⟩
  have hc : s.generator? 0 = some blankGenerators[0] := rfl
  have hg : s.generator? 1 = some blankGenerators[1] := rfl
  have hh : s.generator? 2 = some blankGenerators[2] := rfl
  have hcompact : (generate blankSample 0 s).1 = .ok compactText := by
    rw [generate_outcome hv hc]
    decide +kernel
  have htall : (generate blankSample 1 s).1 = .ok tallText := by
    rw [generate_outcome hv hg]
    decide +kernel
  have hwide : (generate blankSample 2 s).1 = .ok wideText := by
    rw [generate_outcome hv hh]
    decide +kernel
  have hsame : ∀ t ∈ Setting.deciding, blankGenerators[0].get t = blankGenerators[1].get t ∧
      blankGenerators[0].get t = blankGenerators[2].get t := by
    simp only [Setting.deciding, List.forall_mem_cons]
    exact ⟨⟨rfl, rfl⟩, ⟨rfl, rfl⟩, ⟨rfl, rfl⟩, ⟨rfl, rfl⟩, List.forall_mem_nil _⟩
  obtain ⟨htall', hwide'⟩ := generate_squeeze hv hg hh hc (by decide) (by decide) (by decide) hsame
    (d := 0) rfl rfl rfl
  rw [htall, hcompact] at htall'
  rw [hwide, hcompact] at hwide'
  refine ⟨hv, hcompact, htall, hwide, ?_, ?_⟩
  · obtain h | ⟨⟨o, ho⟩, -⟩ := htall'
    · exact Except.ok.inj h
    · cases ho
  · obtain h | ⟨⟨o, ho⟩, -⟩ := hwide'
    · exact Except.ok.inj h
    · cases ho

/-- Where an empty list cannot be indented, a new line in arrays makes the difference between a text and
an overflow. -/
theorem generate_farIndented_newline :
    let g := farIndented
    let c := { farIndented with arrayNewline := .str [] }
    let s := { Session.initial true with generators := #[g, c] }
    (Value.list []).IsNative ∧ g.IsValid ∧ c.IsValid ∧ g.HasLayout IsBlank ∧
      (c.HasLayout fun _ => False) ∧
      (∀ t ∈ Setting.deciding, c.get t = g.get t) ∧
      (generate (.list []) 0 s).1 = .error (.overflow (.count (text "int"))) ∧
      (generate (.list []) 1 s).1 = .ok (text "[]") := by
  intro g c s
  have hv : (Value.list []).IsNative := trivial
  refine ⟨hv, ⟨fun t => by cases t <;> exact ⟨_, rfl⟩, List.forall_mem_nil _⟩,
    ⟨fun t => by cases t <;> exact ⟨_, rfl⟩, List.forall_mem_nil _⟩, by decide, by decide, ?_, ?_, ?_⟩
  · simp only [Setting.deciding, List.forall_mem_cons]
    exact ⟨rfl, rfl, rfl, rfl, List.forall_mem_nil _⟩
  · rw [generate_outcome hv rfl]
    decide +kernel
  · rw [generate_outcome hv rfl]
    decide +kernel

end JsonWriter
