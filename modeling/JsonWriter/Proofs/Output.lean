import JsonWriter.Proofs.Delegation.Agreement
import JsonWriter.Proofs.RoundTrip

/-!
# The characters of the output

With texts between tokens that can stand in output, the check of the output never refuses what the
writer made. With ASCII texts between tokens, asking for ASCII comes to the plain text with every
character past ASCII replaced by its escape, and to the same faults. Main statements:
`generate_eq_render` and `generate_fold`.
-/

namespace JsonWriter

open Generator (Format)

/-! ## Folded texts -/

namespace Escape

theorem isAscii_fold (t : Text) : (fold t).IsAscii := by
  intro d hd
  obtain ⟨c, _, hd⟩ := List.mem_flatMap.mp hd
  exact isAscii_of_mem_foldPoint c d hd

end Escape

/-- The format that asks for ASCII. -/
def Generator.Format.ascii (f : Format) : Format := { f with asciiOnly := true }

namespace Render

/-- The part with its text folded. -/
def Part.fold : Part → Part
  | text t => text (Escape.fold t)
  | other kind => other kind

theorem Part.firstOther?_map_fold (index : Nat) (parts : List Part) :
    firstOther? index (parts.map fold) = firstOther? index parts := by
  induction parts generalizing index with
  | nil => rfl
  | cons p rest ih =>
    cases p with
    | text t => exact ih (index + 1)
    | other kind => rfl

theorem Part.join_map_fold (parts : List Part) :
    join (parts.map fold) = (join parts).map Escape.fold := by
  have hcontent : ((parts.map fold).map content).flatten =
      Escape.fold (parts.map content).flatten := by
    induction parts with
    | nil => rfl
    | cons p rest ih =>
      simp only [List.map_cons, List.flatten_cons, ih, Escape.fold_append]
      cases p <;> rfl
  rw [join, join, firstOther?_map_fold, hcontent]
  cases firstOther? 0 parts <;> rfl

/-- Parts that join to ASCII are what they are folded. -/
theorem Part.map_fold_of_join {parts : List Part} {t : Text} (h : join parts = .ok t)
    (ht : t.IsAscii) : parts.map fold = parts := by
  obtain ⟨ts, rfl, rfl⟩ := join_eq_ok.mp h
  rw [List.map_map]
  refine List.map_congr_left fun u hu => ?_
  have hascii : u.IsAscii := fun c hc => ht c (List.mem_flatten.mpr ⟨u, hu, hc⟩)
  exact congrArg Part.text (Escape.fold_of_isAscii hascii)

/-! ## Tokens and keys -/

section

variable {f : Format}

theorem quoted_fold (t shown : Text) (s : Session) :
    (quoted true t shown s).1 = (quoted false t shown s).1.map Escape.fold := by
  have hquote : Escape.fold [Json.quote] = [Json.quote] := Escape.fold_of_isAscii (by decide)
  have hbody : Escape.fold (t.flatMap (Escape.point false)) = t.flatMap (Escape.point true) :=
    Escape.fold_flatMap_plainPoint t
  have hsplit (body : Text) :
      Json.quote :: body ++ [Json.quote] = [Json.quote] ++ body ++ [Json.quote] := rfl
  rw [quoted_eq, quoted_eq]
  split
  · simp only [Except.map, hsplit, Escape.fold_append, hquote, hbody]
  · rfl

theorem label_fold (hplain : f.asciiOnly = false) (key : Value) (s : Session) :
    (label f.ascii key s).1 = (label f key s).1.map Escape.fold := by
  simp only [label, Format.ascii, hplain, Action.bind_apply]
  generalize keyText key s = run
  obtain ⟨_ | t, s'⟩ := run
  · rfl
  · exact quoted_fold t _ s'

theorem map_fold_of_isAscii {r : Except Fault Text} (h : ∀ t, r = .ok t → t.IsAscii) :
    r.map Escape.fold = r := by
  cases r with
  | error e => rfl
  | ok t => exact congrArg Except.ok (Escape.fold_of_isAscii (h t rfl))

/-- Names and numbers are ASCII, and all other scalars are quoted. -/
theorem leaf_fold (hplain : f.asciiOnly = false) {v : Value} (hv : v.IsNative) (extend : Extender)
    (depth : Value) (s : Session) :
    (leaf extend f.ascii v depth s).1 = (leaf extend f v depth s).1.map Escape.fold := by
  cases hnode : v.node with
  | null => simp only [leaf, hnode]; rfl
  | bool b => simp only [leaf, hnode]; cases b <;> rfl
  | str t =>
    simp only [leaf, hnode, Format.ascii, hplain]
    exact quoted_fold t _ s
  | int n =>
    simp only [leaf, hnode]
    have hfits (t : Text) (ht : (number n s).1 = .ok t) : ∀ c ∈ t, c.Fits true := number_fits ht
    exact (map_fold_of_isAscii fun t ht c hc => (hfits t ht c hc).2 rfl).symm
  | float x =>
    simp only [leaf, hnode]
    have hfits (t : Text) (ht : (float f x s).1 = .ok t) : ∀ c ∈ t, c.Fits true := float_fits ht
    exact (map_fold_of_isAscii fun t ht c hc => (hfits t ht c hc).2 rfl).symm
  | extension e => exact (Value.allowed_of_node v hv hnode).elim
  | array _ | object _ | other =>
    simp only [leaf, hnode, Format.ascii, hplain, Action.bind_apply]
    generalize Action.shown v s = run
    obtain ⟨_ | t, s'⟩ := run
    · rfl
    · exact quoted_fold t _ s'

end

/-! ## Layout -/

/-- The parts with their texts folded, where there are any. -/
abbrev foldParts (r : Except Fault (List Part)) : Except Fault (List Part) := r.map (List.map Part.fold)

theorem foldParts_of_joins {r : Except Fault (List Part)}
    (h : ∀ parts, r = .ok parts → ∃ t, Part.join parts = .ok t ∧ t.IsAscii) : foldParts r = r := by
  cases r with
  | error e => rfl
  | ok parts =>
    obtain ⟨t, ht, hascii⟩ := h parts rfl
    exact congrArg Except.ok (Part.map_fold_of_join ht hascii)

theorem foldParts_bind {α : Type} (x : Except Fault α) {k k' : α → Except Fault (List Part)}
    (h : ∀ a, x = .ok a → k' a = foldParts (k a)) : (x >>= k') = foldParts (x >>= k) := by
  cases x with
  | error e => rfl
  | ok a => exact h a rfl

theorem foldParts_text {t : Text} (ht : t.IsAscii) : foldParts (.ok [.text t]) = .ok [.text t] := by
  rw [foldParts, Except.map, List.map_singleton, Part.fold, Escape.fold_of_isAscii ht]

theorem foldParts_append (r q : Except Fault (List Part)) :
    (do return (← foldParts r) ++ (← foldParts q)) = foldParts (do return (← r) ++ (← q)) := by
  cases r with
  | error e => rfl
  | ok before =>
    cases q with
    | error e => rfl
    | ok after => exact congrArg Except.ok List.map_append.symm

section

variable {f : Format} (hf : f.HasLayout CodePoint.IsAscii)
  {tokens tokens' : Value → Value → Except Fault Text} {keys keys' : Value → Except Fault Text}

include hf

theorem gap_fold {newline : Text} (hnewline : newline.IsAscii) (depth : Number) (first : Bool) :
    foldParts (gap f newline depth first) = gap f newline depth first := by
  refine foldParts_of_joins fun parts hparts => ?_
  obtain ⟨t, ht, hascii⟩ := gap_joins hf hnewline hparts
  refine ⟨_, ht, ?_⟩
  cases first with
  | true => exact hascii
  | false => exact List.forall_mem_cons.mpr ⟨by decide, hascii⟩

theorem ending_fold {newline : Text} (hnewline : newline.IsAscii) (depth : Number) (shape : Shape) :
    foldParts (ending f shape newline depth) = ending f shape newline depth := by
  refine foldParts_of_joins fun parts hparts => ?_
  obtain ⟨t, ht, hascii⟩ := ending_joins hf hnewline hparts
  refine ⟨_, ht, List.forall_mem_append.mpr ⟨hascii, List.forall_mem_singleton.mpr ?_⟩⟩
  cases shape <;> decide

theorem fill_fold {newline : Text} (hnewline : newline.IsAscii) (depth : Number) (first : Bool)
    (entries : List (Except Fault (List Part))) :
    fill (.knowing tokens' keys') f.ascii newline depth first (entries.map foldParts) =
      foldParts (fill (.knowing tokens keys) f newline depth first entries) := by
  induction entries generalizing first with
  | nil => rfl
  | cons r rest ih =>
    have hgap : gap f.ascii newline depth first = foldParts (gap f newline depth first) :=
      (gap_fold hf hnewline depth first).symm
    have happend := foldParts_append (do return (← gap f newline depth first) ++ (← r))
      (fill (.knowing tokens keys) f newline depth false rest)
    rw [← foldParts_append, ← hgap, ← ih] at happend
    simpa only [List.map_cons, fill, Scribe.knowing, bind_assoc, pure_bind] using happend

theorem block_fold (shape : Shape) (depth : Value)
    {entries entries' : Number → List (Except Fault (List Part))}
    (h : ∀ inner, entries' inner = (entries inner).map foldParts) :
    block (.knowing tokens' keys') f.ascii shape depth entries' =
      foldParts (block (.knowing tokens keys) f shape depth entries) := by
  have hshape : shape.newline f.ascii = shape.newline f := by cases shape <;> rfl
  have hnewline (newline : Text) (h : shape.newline f = .ok newline) : newline.IsAscii := by
    obtain ⟨newline', h', hascii⟩ := hf.newline shape
    exact Except.ok.inj (h.symm.trans h') ▸ hascii
  have hbracket : shape.opening.IsAscii := by cases shape <;> decide
  simp only [block, Scribe.knowing, hshape]
  refine foldParts_bind _ fun _ _ => foldParts_bind _ fun newline h' => foldParts_bind _ fun inner _ => ?_
  have hascii := hnewline newline h'
  have hopening := foldParts_text (List.forall_mem_cons.mpr ⟨hbracket, hascii⟩)
  have hfill : fill (.knowing tokens' keys') f.ascii newline inner true ((entries inner).map foldParts) =
      foldParts (fill (.knowing tokens keys) f newline inner true (entries inner)) :=
    fill_fold hf hascii inner true (entries inner)
  have hending : ending f.ascii shape newline inner.pred =
      foldParts (ending f shape newline inner.pred) := (ending_fold hf hascii inner.pred shape).symm
  have happend := foldParts_append
    (do return (← .ok [.text (shape.opening :: newline)]) ++
      (← fill (.knowing tokens keys) f newline inner true (entries inner)))
    (ending f shape newline inner.pred)
  rw [← foldParts_append, hopening, ← hfill, ← hending, ← h inner] at happend
  simp only [bind_assoc, pure_bind] at happend
  exact happend

theorem pair_fold {key : Value} (hkey : keys' key = (keys key).map Escape.fold)
    (r : Except Fault (List Part)) :
    pair (.knowing tokens' keys') f.ascii key (foldParts r) =
      foldParts (pair (.knowing tokens keys) f key r) := by
  have hascii (colon : Text) (h : f.colon = .ok colon) : colon.IsAscii := by
    obtain ⟨before, after, h', hbefore, hafter⟩ := hf.colon
    obtain rfl := Except.ok.inj (h.symm.trans h')
    exact List.forall_mem_append.mpr ⟨hbefore, List.forall_mem_cons.mpr ⟨by decide, hafter⟩⟩
  simp only [pair, Scribe.knowing, hkey]
  cases keys key with
  | error e => rfl
  | ok label =>
    have hbind : (do
        let colon ← f.colon
        return [.text (Escape.fold label), .text colon] ++ (← foldParts r)) =
          foldParts (do
            let colon ← f.colon
            return [.text label, .text colon] ++ (← r)) := by
      refine foldParts_bind _ fun colon hcolon => ?_
      have happend := foldParts_append (.ok [.text label, .text colon]) r
      rw [foldParts, Except.map, List.map_cons, List.map_singleton, Part.fold, Part.fold,
        Escape.fold_of_isAscii (hascii colon hcolon)] at happend
      exact happend
    exact hbind

/-- The layout that asks for ASCII is the plain layout folded. -/
theorem layOut_fold (htoken : ∀ v depth, v.IsNative → tokens' v depth = (tokens v depth).map Escape.fold)
    (hkey : ∀ key, keys' key = (keys key).map Escape.fold) {v : Value} (hv : v.IsNative)
    (depth : Value) :
    layOut (.knowing tokens' keys') f.ascii depth v =
      foldParts (layOut (.knowing tokens keys) f depth v) := by
  induction v, hv using Value.tree_induction generalizing depth with
  | scalar v h hscalar =>
    rw [layOut_of_scalar _ _ _ hscalar, layOut_of_scalar _ _ _ hscalar]
    simp only [token, Scribe.knowing, htoken v depth h]
    cases tokens v depth <;> rfl
  | sequence v h kind items hcontent ih =>
    rw [layOut_of_sequence _ _ _ hcontent, layOut_of_sequence _ _ _ hcontent]
    refine block_fold hf .array depth fun inner => ?_
    rw [List.map_map]
    exact List.map_congr_left fun w hw => (ih w hw).2 inner.value
  | mapping v h kind entries hcontent ih =>
    rw [layOut_of_mapping _ _ _ hcontent, layOut_of_mapping _ _ _ hcontent]
    refine block_fold hf .object depth fun inner => ?_
    rw [List.map_map]
    refine List.map_congr_left fun e he => ?_
    obtain ⟨_, ih⟩ := ih e he
    rw [ih inner.value, Function.comp_apply]
    exact pair_fold hf (hkey e.1) _
  | binary v h kind data hcontent ih =>
    rw [layOut_of_binary _ _ _ hcontent, layOut_of_binary _ _ _ hcontent]
    exact ih.2 depth

end

end Render

/-! ## Generating -/

/-- Where the texts between tokens can stand in the output, the check of the output does not refuse the
text of a value without objects that write themselves. -/
theorem generate_eq_join {v : Value} (hv : v.IsNative) {s : Session} {id : Nat} {g : Generator}
    (hg : s.generator? id = some g) (hlayout : g.HasLayout (CodePoint.Fits g.asciiOnly.isTrue)) :
    (generate v id s).1 =
      Render.layOut (.outcome g.format s) g.format g.depth v >>= Render.Part.join := by
  have hagrees := Render.layOut_outcome_agrees (f := g.format) hlayout.format hv g.depth s
  have hfits (t : Text) := hagrees.forall_mem (t := t)
  rw [generate_outcome hv hg, ← bind_assoc]
  generalize (Render.layOut (.outcome g.format s) g.format g.depth v >>= Render.Part.join) = joined
    at hfits
  cases joined with
  | error e => rfl
  | ok t =>
    have hcheck : checkOutput g.asciiOnly.isTrue t = .ok () := checkOutput_of_fits (hfits t rfl)
    simp only [bind, Except.bind, hcheck, pure, Except.pure]

/-- Generating comes to what rendering comes to. -/
theorem generate_eq_render {v : Value} (hv : v.IsNative) {s : Session} {id : Nat} {g : Generator}
    (hg : s.generator? id = some g) (hlayout : g.HasLayout (CodePoint.Fits g.asciiOnly.isTrue)) :
    (generate v id s).1 = (render v id none s).1 := by
  have hrender := (renderAt_settles v.rank hv id none s s (.refl s)).1
  simp only [hg, Option.getD_some, Option.getD_none] at hrender
  rw [generate_eq_join hv hg hlayout, render, hrender]

theorem Generator.HasLayout.fits {g : Generator} (h : g.HasLayout CodePoint.IsAscii) (asciiOnly : Bool) :
    g.HasLayout (CodePoint.Fits asciiOnly) := h.mono fun _ hc => CodePoint.fits_of_isAscii hc asciiOnly

/-- Of two generators that differ in whether they ask for ASCII only, and that have ASCII between tokens,
the one that asks for it comes to the text of the other with every character past ASCII replaced by its
escape, or to the same fault. -/
theorem generate_fold {v : Value} (hv : v.IsNative) {s : Session} {i j : Nat} {g h : Generator}
    (hg : s.generator? i = some g) (hh : s.generator? j = some h)
    (hsame : ∀ t, t ≠ .asciiOnly → h.get t = g.get t) (hplain : g.asciiOnly.isTrue = false)
    (hascii : h.asciiOnly.isTrue = true) (hlayout : g.HasLayout CodePoint.IsAscii) :
    (generate v j s).1 = (generate v i s).1.map Escape.fold ∧
      ∀ t, (generate v j s).1 = .ok t → t.IsAscii := by
  have hlayout' : h.HasLayout CodePoint.IsAscii := fun t ht => by
    have hother : ∀ t ∈ Setting.layout, t ≠ .asciiOnly := by decide
    rw [hsame t (hother t ht)]
    exact hlayout t ht
  have hformat : h.format = g.format.ascii := by
    have hindent : h.indent = g.indent := hsame .indent (by decide)
    have hspace : h.space = g.space := hsame .space (by decide)
    have hbefore : h.spaceBefore = g.spaceBefore := hsame .spaceBefore (by decide)
    have hobject : h.objectNewline = g.objectNewline := hsame .objectNewline (by decide)
    have harray : h.arrayNewline = g.arrayNewline := hsame .arrayNewline (by decide)
    have hnesting : h.maxNesting = g.maxNesting := hsame .maxNesting (by decide)
    have hnan : h.allowNan = g.allowNan := hsame .allowNan (by decide)
    simp only [Generator.format, Generator.colon, Format.ascii, hindent, hspace, hbefore, hobject,
      harray, hnesting, hnan, hascii]
  have hdepth : h.depth = g.depth := hsame .depth (by decide)
  have hlayOut : Render.layOut (.outcome g.format.ascii s) g.format.ascii g.depth v =
      Render.foldParts (Render.layOut (.outcome g.format s) g.format g.depth v) :=
    Render.layOut_fold hlayout.format
      (fun w depth hw => Render.leaf_fold (f := g.format) hplain hw _ depth s)
      (fun key => Render.label_fold (f := g.format) hplain key s) hv g.depth
  have hfold : (generate v j s).1 = (generate v i s).1.map Escape.fold := by
    rw [generate_eq_join hv hh (hlayout'.fits _), generate_eq_join hv hg (hlayout.fits _), hformat,
      hdepth, hlayOut]
    cases Render.layOut (.outcome g.format s) g.format g.depth v with
    | error e => rfl
    | ok parts => exact Render.Part.join_map_fold parts
  refine ⟨hfold, fun t ht => ?_⟩
  rw [hfold] at ht
  obtain ⟨u, _, rfl⟩ := map_eq_ok.mp ht
  exact Escape.isAscii_fold u

/-- An object under a key past ASCII, with a text of a backslash, a control character, DEL and characters
of two, three and four bytes. -/
def mixedTextSample : Value :=
  .dictionary [(.str [.ofNat 0xE9], .list [.str (text "a\\" ++ [.ofNat 1, .ofNat 0x7F, .ofNat 0x80,
    .ofNat 0x20AC, .ofNat 0x1F600]), .float ⟨0x3FF8000000000000⟩])]

/-- A generator with a space after colons, and one besides that asks for ASCII. -/
def spaceGenerators : Array Generator :=
  let g := { Generator.initial with space := .str (text " ") }
  #[g, { g with asciiOnly := .bool true }]

def mixedTextPlain : Text :=
  text "\x7b\"" ++ [.ofNat 0xE9] ++ text "\": [\"a\\\\\\u0001" ++
    [.ofNat 0x7F, .ofNat 0x80, .ofNat 0x20AC, .ofNat 0x1F600] ++ text "\",1.5]\x7d"

theorem generate_mixedTextSample :
    let s := { Session.initial true with generators := spaceGenerators }
    mixedTextSample.IsNative ∧
      (generate mixedTextSample 0 s).1 = .ok mixedTextPlain ∧
      (generate mixedTextSample 1 s).1 = .ok (text ("\x7b\"\\u00e9\": [\"a\\\\\\u0001\x7f\\u0080" ++
        "\\u20ac\\ud83d\\ude00\",1.5]\x7d")) := by
  intro s
  have hv : mixedTextSample.IsNative := ⟨⟨trivial, trivial, trivial⟩, trivial⟩
  have hg : s.generator? 0 = some spaceGenerators[0] := rfl
  have hh : s.generator? 1 = some spaceGenerators[1] := rfl
  have hsame : ∀ t, t ≠ .asciiOnly → spaceGenerators[1].get t = spaceGenerators[0].get t := by
    intro t ht
    cases t <;> first | rfl | exact absurd rfl ht
  have hlayout : spaceGenerators[0].HasLayout CodePoint.IsAscii := by decide
  have hplain : (generate mixedTextSample 0 s).1 = .ok mixedTextPlain := by
    rw [generate_outcome hv hg]
    decide +kernel
  obtain ⟨hfold, -⟩ := generate_fold hv hg hh hsame rfl rfl hlayout
  refine ⟨hv, hplain, ?_⟩
  rw [hfold, hplain]
  decide +kernel

end JsonWriter
