import JsonWriter.Proofs.Delegation.Inline
import JsonWriter.Proofs.Json.Normal
import JsonWriter.Proofs.Json.Reader
import JsonWriter.Proofs.Layout.Parts

/-!
# Layouts that join to the same text

An object that passes a value on is a single part, where the value in its place is laid out in many.
The two layouts have the same fault or join to the same text, and every character of that text can be
written. Main statements: `layOut_inline`, and `layOut_inline_eq` for a value that was read.
-/

namespace JsonWriter

/-- The character can stand in output. -/
def CodePoint.Fits (asciiOnly : Bool) (c : CodePoint) : Prop :=
  ¬ c.IsSurrogate ∧ (asciiOnly → c.IsAscii)

theorem CodePoint.fits_of_isAscii {c : CodePoint} (h : c.IsAscii) (asciiOnly : Bool) :
    c.Fits asciiOnly := by
  refine ⟨fun hs => ?_, fun _ => h⟩
  simp only [IsAscii, IsSurrogate] at h hs
  omega

/-- Text of such characters passes the check of the output. -/
theorem checkOutput_of_fits {asciiOnly : Bool} {t : Text} (h : ∀ c ∈ t, c.Fits asciiOnly) :
    checkOutput asciiOnly t = .ok () := by
  have hscalar : t.IsScalar := fun c hc => (h c hc).1
  have hascii : ¬ (asciiOnly ∧ ¬ t.IsAscii) := fun hnot => hnot.2 fun c hc => (h c hc).2 hnot.1
  rw [checkOutput, if_neg (not_not_intro hscalar), if_neg hascii]

theorem Json.isAscii_of_isWord {c : CodePoint} (h : Json.IsWord c) : c.IsAscii := by
  simp only [CodePoint.IsAscii]
  obtain h | h | h | rfl | rfl | rfl := h
  · simp only [Json.IsDigit] at h
    omega
  · omega
  · omega
  all_goals decide

namespace Render

open Generator (Format)

/-! ## The characters of tokens and keys -/

section

variable {asciiOnly : Bool}

theorem fits_text {u : String} (h : Text.IsAscii (text u)) : ∀ c ∈ text u, c.Fits asciiOnly :=
  fun c hc => CodePoint.fits_of_isAscii (h c hc) asciiOnly

theorem quoted_fits {t shown q : Text} {s : Session} (h : (quoted asciiOnly t shown s).1 = .ok q) :
    ∀ c ∈ q, c.Fits asciiOnly := by
  rw [quoted_eq] at h
  split at h
  · next ht =>
    obtain rfl := Except.ok.inj h
    have hquote : Json.quote.Fits asciiOnly := CodePoint.fits_of_isAscii (by decide) _
    have hpoint : ∀ c ∈ t.flatMap (Escape.point asciiOnly), c.Fits asciiOnly := by
      intro c hc
      obtain ⟨d, hd, hc⟩ := List.mem_flatMap.mp hc
      cases asciiOnly with
      | true => exact CodePoint.fits_of_isAscii (Escape.isAscii_of_mem_asciiPoint d c hc) _
      | false => exact ⟨Escape.isScalar_plainPoint (ht d hd) c hc, nofun⟩
    exact List.forall_mem_append.mpr
      ⟨List.forall_mem_cons.mpr ⟨hquote, hpoint⟩, List.forall_mem_singleton.mpr hquote⟩
  · cases h

theorem fits_parts {p : Json.Parts} (hp : p.WellFormed) : ∀ c ∈ p.text, c.Fits asciiOnly := fun c hc =>
  CodePoint.fits_of_isAscii (Json.isAscii_of_isWord (Json.isWord_of_mem_text hp c hc)) asciiOnly

theorem number_fits {n : Int} {s : Session} {t : Text} (h : (number n s).1 = .ok t) :
    ∀ c ∈ t, c.Fits asciiOnly := by
  obtain ⟨p, hp, htext, -⟩ := exists_parts_ofInt n
  rw [number_eq_ok h, ← htext]
  exact fits_parts hp

theorem float_fits {f : Format} {x : Binary64} {s : Session} {t : Text} (h : (float f x s).1 = .ok t) :
    ∀ c ∈ t, c.Fits asciiOnly := by
  unfold float at h
  by_cases hx : x.IsFinite
  · rw [if_pos hx] at h
    obtain rfl := Except.ok.inj h
    obtain ⟨p, hp, htext, -⟩ := Binary64.exists_parts_finiteText hx
    rw [← htext]
    exact fits_parts hp
  · rw [if_neg hx] at h
    by_cases hallow : f.allowNan
    · simp only [if_pos hallow] at h
      obtain rfl := Except.ok.inj h
      refine fits_text ?_
      split
      · decide
      · split <;> decide
    · simp only [if_neg hallow] at h
      cases h

theorem label_fits {f : Format} {key : Value} {s : Session} {t : Text}
    (h : (label f key s).1 = .ok t) : ∀ c ∈ t, c.Fits f.asciiOnly := by
  rw [label, Action.bind_apply] at h
  generalize keyText key s = run at h
  obtain ⟨_ | name, s'⟩ := run
  · cases h
  · exact quoted_fits h

theorem leaf_fits {extend : Extender} {f : Format} {v depth : Value} {s : Session} {t : Text}
    (hv : v.IsNative) (h : (leaf extend f v depth s).1 = .ok t) : ∀ c ∈ t, c.Fits f.asciiOnly := by
  cases hnode : v.node with
  | null =>
    simp only [leaf, hnode] at h
    exact Except.ok.inj h ▸ fits_text (by decide)
  | bool b =>
    simp only [leaf, hnode] at h
    obtain rfl := Except.ok.inj h
    refine fits_text ?_
    cases b <;> decide
  | str u =>
    simp only [leaf, hnode] at h
    exact quoted_fits h
  | int n =>
    simp only [leaf, hnode] at h
    exact number_fits h
  | float x =>
    simp only [leaf, hnode] at h
    exact float_fits h
  | extension e => exact (Value.allowed_of_node v hv hnode).elim
  | array _ | object _ | other =>
    simp only [leaf, hnode, Action.bind_apply] at h
    generalize Action.shown v s = run at h
    obtain ⟨_ | u, s'⟩ := run
    · cases h
    · exact quoted_fits h

end

/-! ## Outcomes that agree -/

/-- The same fault, or parts that join to the same text of such characters. -/
inductive Agrees (p : CodePoint → Prop) :
    Except Fault (List Part) → Except Fault (List Part) → Prop
  | error (e : Fault) : Agrees p (.error e) (.error e)
  | ok {parts parts' : List Part} {t : Text} (h : Part.join parts = .ok t)
    (h' : Part.join parts' = .ok t) (ht : ∀ c ∈ t, p c) : Agrees p (.ok parts) (.ok parts')

section

variable {p : CodePoint → Prop} {r r' q q' : Except Fault (List Part)}

theorem Agrees.join_eq (h : Agrees p r r') : (r >>= Part.join) = (r' >>= Part.join) := by
  cases h with
  | error e => rfl
  | ok h h' _ => exact h.trans h'.symm

theorem Agrees.forall_mem (h : Agrees p r r') {t : Text} (ht : (r' >>= Part.join) = .ok t) :
    ∀ c ∈ t, p c := by
  cases h with
  | error e => cases ht
  | ok _ h' hp => exact Except.ok.inj (h'.symm.trans ht) ▸ hp

theorem agrees_of_joins
    (h : ∀ parts, r = .ok parts → ∃ t, Part.join parts = .ok t ∧ ∀ c ∈ t, p c) : Agrees p r r := by
  cases r with
  | error e => exact .error e
  | ok parts =>
    obtain ⟨t, ht, hp⟩ := h parts rfl
    exact .ok ht ht hp

theorem agrees_text {t : Text} (h : ∀ c ∈ t, p c) : Agrees p (.ok [.text t]) (.ok [.text t]) :=
  agrees_of_joins fun _ hparts =>
    ⟨t, Except.ok.inj hparts ▸ Part.join_text t, h⟩

/-- Parts agree with the one part that they join to. -/
theorem Agrees.joined (h : Agrees p r r') :
    Agrees p (do return [.text (← r' >>= Part.join)]) r' := by
  cases h with
  | error e => exact .error e
  | @ok _ _ t _ h' hp =>
    have hjoin : (Except.ok _ >>= Part.join) = .ok t := h'
    rw [hjoin]
    exact .ok (Part.join_text t) h' hp

theorem agrees_bind {α : Type} (x : Except Fault α) {k k' : α → Except Fault (List Part)}
    (h : ∀ a, x = .ok a → Agrees p (k a) (k' a)) : Agrees p (x >>= k) (x >>= k') := by
  cases x with
  | error e => exact .error e
  | ok a => exact h a rfl

theorem Agrees.append (h : Agrees p r r') (hq : Agrees p q q') :
    Agrees p (do return (← r) ++ (← q)) (do return (← r') ++ (← q')) := by
  cases h with
  | error e => exact .error e
  | ok h h' hp =>
    cases hq with
    | error e => exact .error e
    | ok hq hq' hpq =>
      exact .ok (Part.join_append_eq_ok.mpr ⟨_, _, h, hq, rfl⟩)
        (Part.join_append_eq_ok.mpr ⟨_, _, h', hq', rfl⟩) (List.forall_mem_append.mpr ⟨hp, hpq⟩)

end

section

variable {f : Format} (hf : f.HasLayout (CodePoint.Fits f.asciiOnly))
  {tokens tokens' : Value → Value → Except Fault Text} {keys : Value → Except Fault Text}

include hf

theorem fill_agrees {xs ys : List (Except Fault (List Part))}
    (h : List.Forall₂ (Agrees (CodePoint.Fits f.asciiOnly)) xs ys) {newline : Text}
    (hnewline : ∀ c ∈ newline, c.Fits f.asciiOnly) (depth : Number) (first : Bool) :
    Agrees (CodePoint.Fits f.asciiOnly) (fill (.knowing tokens keys) f newline depth first xs)
      (fill (.knowing tokens' keys) f newline depth first ys) := by
  have hcomma : (CodePoint.ofChar ',').Fits f.asciiOnly := CodePoint.fits_of_isAscii (by decide) _
  induction h generalizing first with
  | nil => exact .ok rfl rfl (List.forall_mem_nil _)
  | cons hx _ ih =>
    have hgap : Agrees (CodePoint.Fits f.asciiOnly) (gap f newline depth first)
        (gap f newline depth first) := by
      refine agrees_of_joins fun parts hparts => ?_
      obtain ⟨t, ht, hp⟩ := gap_joins hf hnewline hparts
      refine ⟨_, ht, ?_⟩
      cases first with
      | true => exact hp
      | false => exact List.forall_mem_cons.mpr ⟨hcomma, hp⟩
    have happend := (hgap.append hx).append (ih false)
    simpa only [fill, Scribe.knowing, bind_assoc, pure_bind] using happend

theorem block_agrees (shape : Shape) (depth : Value)
    {entries entries' : Number → List (Except Fault (List Part))}
    (h : ∀ inner : Number, List.Forall₂ (Agrees (CodePoint.Fits f.asciiOnly)) (entries inner)
      (entries' inner)) :
    Agrees (CodePoint.Fits f.asciiOnly) (block (.knowing tokens keys) f shape depth entries)
      (block (.knowing tokens' keys) f shape depth entries') := by
  have hbracket (c : CodePoint) (hc : c = shape.opening ∨ c = shape.closing) :
      c.Fits f.asciiOnly := by
    refine CodePoint.fits_of_isAscii ?_ _
    obtain rfl | rfl := hc <;> cases shape <;> decide
  refine agrees_bind _ fun _ _ => agrees_bind _ fun newline hnewline => ?_
  obtain ⟨newline', hnewline', hfits⟩ := hf.newline shape
  obtain rfl := Except.ok.inj (hnewline.symm.trans hnewline')
  refine agrees_bind _ fun inner _ => ?_
  have hstart := agrees_text (p := CodePoint.Fits f.asciiOnly) (t := shape.opening :: newline)
    (List.forall_mem_cons.mpr ⟨hbracket _ (.inl rfl), hfits⟩)
  have hbody : Agrees (CodePoint.Fits f.asciiOnly)
      (fill (.knowing tokens keys) f newline inner true (entries inner))
      (fill (.knowing tokens' keys) f newline inner true (entries' inner)) :=
    fill_agrees hf (h inner) hfits inner true
  have hend : Agrees (CodePoint.Fits f.asciiOnly) (ending f shape newline inner.pred)
      (ending f shape newline inner.pred) := by
    refine agrees_of_joins fun parts hparts => ?_
    obtain ⟨t, ht, hp⟩ := ending_joins hf hfits hparts
    exact ⟨_, ht, List.forall_mem_append.mpr
      ⟨hp, List.forall_mem_singleton.mpr (hbracket _ (.inr rfl))⟩⟩
  have happend := (hstart.append hbody).append hend
  simp only [bind_assoc, pure_bind] at happend
  exact happend

theorem pair_agrees {key : Value}
    (hkey : ∀ label, keys key = .ok label → ∀ c ∈ label, c.Fits f.asciiOnly)
    {r r' : Except Fault (List Part)} (h : Agrees (CodePoint.Fits f.asciiOnly) r r') :
    Agrees (CodePoint.Fits f.asciiOnly) (pair (.knowing tokens keys) f key r)
      (pair (.knowing tokens' keys) f key r') := by
  have hcolon' : (CodePoint.ofChar ':').Fits f.asciiOnly := CodePoint.fits_of_isAscii (by decide) _
  refine agrees_bind _ fun label hlabel => agrees_bind _ fun colon hcolon => ?_
  obtain ⟨before, after, hcolon'', hbefore, hafter⟩ := hf.colon
  obtain rfl := Except.ok.inj (hcolon.symm.trans hcolon'')
  have hstart := (agrees_text (hkey label hlabel)).append (agrees_text (p := CodePoint.Fits f.asciiOnly)
    (t := before ++ .ofChar ':' :: after)
    (List.forall_mem_append.mpr ⟨hbefore, List.forall_mem_cons.mpr ⟨hcolon', hafter⟩⟩))
  exact hstart.append h

/-- If the layouts of scalars agree with those of what they are replaced by, so do the layouts of
values. -/
theorem layOut_agrees {nodes keyed : Value → Prop} (hnodes : Value.Inherited nodes keyed)
    (htoken : ∀ v depth, nodes v → container? v = none → Agrees (CodePoint.Fits f.asciiOnly)
      (token (.knowing tokens keys) depth v) (layOut (.knowing tokens' keys) f depth v.inline))
    (hkey : ∀ key label, keys key = .ok label → ∀ c ∈ label, c.Fits f.asciiOnly)
    {v : Value} (hfinite : v.IsFinite) (hv : nodes v) (depth : Value) :
    Agrees (CodePoint.Fits f.asciiOnly) (layOut (.knowing tokens keys) f depth v)
      (layOut (.knowing tokens' keys) f depth v.inline) := by
  induction v, hfinite using Value.tree_induction generalizing depth with
  | scalar v h hscalar =>
    rw [layOut_of_scalar _ f depth hscalar]
    exact htoken v depth hv hscalar
  | sequence v h kind items hcontent ih =>
    rw [layOut_of_sequence _ f depth hcontent,
      layOut_of_sequence _ f depth (Value.inline_of_sequence hcontent)]
    refine block_agrees hf .array depth fun inner => ?_
    simp only [List.map_map, List.forall₂_map_left_iff, List.forall₂_map_right_iff,
      List.forall₂_same]
    intro w hw
    exact (ih w hw).2 (hnodes.item hv hcontent w hw) inner.value
  | mapping v h kind entries hcontent ih =>
    rw [layOut_of_mapping _ f depth hcontent,
      layOut_of_mapping _ f depth (Value.inline_of_mapping hcontent)]
    refine block_agrees hf .object depth fun inner => ?_
    simp only [List.map_map, List.forall₂_map_left_iff, List.forall₂_map_right_iff,
      List.forall₂_same]
    intro e he
    exact pair_agrees hf (hkey e.1) ((ih e he).2 (hnodes.entry hv hcontent e he).2 inner.value)
  | binary v h kind data hcontent ih =>
    have hraw : (Value.dictionary (Value.rawEntries kind data)).inline =
        .dictionary (Value.rawEntries kind data) :=
      Value.inline_of_isNative _ (Value.isTree_rawEntries kind data)
    rw [Value.inline_of_binary hcontent, layOut_of_binary _ f depth hcontent,
      layOut_of_binary _ f depth hcontent, ← hraw]
    simpa only [hraw] using ih.2 (hnodes.raw hv hcontent) depth

end

/-! ## Objects that pass a value on -/

/-- The scribe that knows what tokens and keys come to where no text depends on a generator. -/
def Scribe.known (f : Format) : Scribe (Except Fault) := .outcome f (.initial false)

/-- What comes of the text of a value, with objects replaced by what they pass on. -/
def inlineText (f : Format) (v depth : Value) : Except Fault Text :=
  layOut (.known f) f depth v.inline >>= Part.join

/-- What the token of a scalar comes to, where that of an object that passes a value on is the text
of this value. -/
def delegatedToken (f : Format) (v depth : Value) : Except Fault Text :=
  if v.isExtension then inlineText f v depth else (Scribe.known f).token v depth

/-- As `Scribe.known`, but objects pass values on. -/
def Scribe.delegating (f : Format) : Scribe (Except Fault) :=
  .knowing (delegatedToken f) (Scribe.known f).key

section

variable {f : Format} (hf : f.HasLayout (CodePoint.Fits f.asciiOnly))

theorem token_outcome_agrees {v : Value} (hv : v.IsNative) (depth : Value) (s : Session) :
    Agrees (CodePoint.Fits f.asciiOnly) (token (.outcome f s) depth v)
      (token (.outcome f s) depth v) := by
  refine agrees_of_joins fun parts hparts => ?_
  obtain ⟨t, ht, rfl⟩ := token_eq_ok.mp hparts
  exact ⟨t, Part.join_text t, leaf_fits hv ht⟩

include hf

/-- A value without objects that write themselves is laid out in parts that join. -/
theorem layOut_outcome_agrees {v : Value} (hv : v.IsNative) (depth : Value) (s : Session) :
    Agrees (CodePoint.Fits f.asciiOnly) (layOut (.outcome f s) f depth v)
      (layOut (.outcome f s) f depth v) := by
  have htoken (w depth : Value) (hw : w.IsNative) (hscalar : container? w = none) :
      Agrees (CodePoint.Fits f.asciiOnly) (token (.outcome f s) depth w)
        (layOut (.outcome f s) f depth w.inline) := by
    rw [Value.inline_of_isNative w hw, layOut_of_scalar _ f depth hscalar]
    exact token_outcome_agrees hw depth s
  have hagrees := layOut_agrees hf Value.IsTree.inherited htoken (fun _ _ => label_fits) hv.isFinite
    hv depth
  rw [Value.inline_of_isNative v hv] at hagrees
  exact hagrees

/-- A value can be laid out with each object in it replaced by the value that the object passes on. -/
theorem layOut_inline {v : Value} (hv : v.Delegates) (depth : Value) :
    Agrees (CodePoint.Fits f.asciiOnly) (layOut (.delegating f) f depth v)
      (layOut (.known f) f depth v.inline) := by
  refine layOut_agrees hf (Value.DelegatesWithin.inherited v.rank) (fun w depth hw hscalar => ?_)
    (fun _ _ => label_fits) hv.isFinite ⟨hv, Nat.le_refl _⟩ depth
  have hnative := (Value.inline_isNative w hw.1).1
  cases he : w.isExtension with
  | true =>
    have htoken : delegatedToken f w depth = inlineText f w depth := if_pos he
    have hknown : Agrees (CodePoint.Fits f.asciiOnly) (layOut (.known f) f depth w.inline)
        (layOut (.known f) f depth w.inline) := layOut_outcome_agrees hf hnative depth _
    have hjoined := hknown.joined
    rw [← inlineText, ← htoken] at hjoined
    exact hjoined
  | false =>
    have htoken : delegatedToken f w depth = (Scribe.known f).token w depth := by
      rw [delegatedToken, he]
      rfl
    rw [Value.inline_of_scalar hscalar he] at hnative ⊢
    rw [layOut_of_scalar _ f depth hscalar]
    have hknown : Agrees (CodePoint.Fits f.asciiOnly) (token (.known f) depth w)
        (token (.known f) depth w) := token_outcome_agrees hnative depth _
    simp only [token, Scribe.knowing, htoken] at hknown ⊢
    exact hknown

end

/-! ## Values that were read -/

section

variable {m n : Nat} {v w : Value} (h : Value.Numbered m n v w)

include h

theorem shown_numbered : Action.shown w = Action.shown v := by
  funext s
  have hshown := h.shown?_eq s.describe s.describe
  obtain ⟨_, _, _, _, hv, hw, _⟩ | ⟨_, _, _, _, hv, hw, _⟩ | ⟨x, y, _, hv, hw, hxy⟩ | ⟨heq, _⟩ :=
    h.content_cases
  · simp only [Action.shown, hshown, hv, hw]
    split <;> simp_all
  · simp only [Action.shown, hshown, hv, hw]
    split <;> simp_all
  · have hkind := hxy.kind_eq
    simp only [Action.shown, hshown, hv, hw]
    split <;> simp_all
  · simp only [Action.shown, hshown, heq]

theorem shownText_numbered (t : Text) : shownText w t = shownText v t := by
  cases h with
  | atom _ _ => rfl
  | mark hv hd => obtain ⟨x, rfl⟩ | ⟨e, rfl⟩ := Value.float_or_extension hv hd <;> rfl
  | sequence _ _ => rfl
  | mapping _ _ => rfl
  | derived _ => rfl
  | @object _ _ x _ h =>
    cases h with
    | atom hx _ | mark hx _ => cases x <;> first | exact hx.elim | rfl
    | _ => rfl

theorem label_numbered (f : Format) : label f w = label f v := by
  have hkey : keyText w = keyText v := by
    unfold keyText
    rw [h.text?_eq]
    cases v.text? with
    | some t => rfl
    | none =>
      have hshown := shown_numbered h
      cases h with
      | atom _ _ => rfl
      | mark hv hd =>
        obtain ⟨x, rfl⟩ | ⟨e, rfl⟩ := Value.float_or_extension hv hd <;> exact hshown
      | sequence _ _ => exact hshown
      | mapping _ _ => exact hshown
      | derived _ => exact hshown
      | object _ => exact hshown
  simp only [label, hkey, shownText_numbered h]

theorem node_numbered (hscalar : container? v = none) : w.node = v.node := by
  rw [← Value.node_content w, ← Value.node_content v]
  rw [container?, ← Value.node_content] at hscalar
  obtain ⟨_, _, _, _, hv, _, _⟩ | ⟨_, _, _, _, hv, _, _⟩ | ⟨_, _, _, hv, hw, _⟩ | ⟨heq, _⟩ :=
    h.content_cases
  · simp [hv, Value.node] at hscalar
  · simp [hv, Value.node] at hscalar
  · rw [hv, hw]
    rfl
  · rw [heq]

theorem leaf_numbered (hscalar : container? v = none) (extend : Extender) (f : Format)
    (depth : Value) : leaf extend f w depth = leaf extend f v depth := by
  simp only [leaf, node_numbered h hscalar, shown_numbered h, shownText_numbered h]

end

theorem map_numberedItems {β : Type} {g : Value → β} {m n : Nat} {vs ws : List Value}
    (h : Value.NumberedItems m n vs ws)
    (hg : ∀ v ∈ vs, ∀ m n w, Value.Numbered m n v w → g w = g v) : ws.map g = vs.map g := by
  induction vs generalizing m ws with
  | nil =>
    cases h
    rfl
  | cons v rest ih =>
    obtain _ | ⟨hv, hrest⟩ := h
    obtain ⟨hhead, htail⟩ := List.forall_mem_cons.mp hg
    rw [List.map_cons, List.map_cons, hhead _ _ _ hv, ih hrest htail]

theorem map_numberedEntries {β : Type} {g : Value × Value → β} {m n : Nat}
    {es fs : List (Value × Value)} (h : Value.NumberedEntries m n es fs)
    (hg : ∀ e ∈ es, ∀ k l m n key w, Value.Numbered k l e.1 key → Value.Numbered m n e.2 w →
      g (key, w) = g e) : fs.map g = es.map g := by
  induction es generalizing m fs with
  | nil =>
    cases h
    rfl
  | cons e rest ih =>
    obtain _ | ⟨hkey, hv, hrest⟩ := h
    obtain ⟨hhead, htail⟩ := List.forall_mem_cons.mp hg
    rw [List.map_cons, List.map_cons, hhead _ _ _ _ _ _ hkey hv, ih hrest htail]

/-- A value is laid out as it is written down, whatever identities were given to its parts. -/
theorem layOut_numbered (f : Format) {v : Value} (hfinite : v.IsFinite) {m n : Nat} {w : Value}
    (h : Value.Numbered m n v w) (depth : Value) :
    layOut (.known f) f depth w.inline = layOut (.known f) f depth v.inline := by
  induction v, hfinite using Value.tree_induction generalizing m n w depth with
  | scalar v h' hscalar =>
    cases he : v.isExtension with
    | true =>
      obtain ⟨e, hv⟩ := Value.isExtension_iff.mp he
      have hw : w.content = .extension e := (h.content_of_isAtom (by rw [hv]; trivial)).trans hv
      rw [Value.inline_of_extension v hv, Value.inline_of_extension w hw]
    | false =>
      have hscalar' : container? w = none := by
        rw [container?, node_numbered h hscalar]
        exact hscalar
      rw [Value.inline_of_scalar hscalar he,
        Value.inline_of_scalar hscalar' (h.isExtension_eq.trans he), layOut_of_scalar _ f depth hscalar,
        layOut_of_scalar _ f depth hscalar']
      simp only [token, Scribe.known, Scribe.outcome, Scribe.knowing, leaf_numbered h hscalar]
  | sequence v h' kind items hcontent ih =>
    obtain ⟨ws, n', hw, hitems⟩ := h.content_of_sequence hcontent
    rw [layOut_of_sequence _ f depth (Value.inline_of_sequence hcontent),
      layOut_of_sequence _ f depth (Value.inline_of_sequence hw)]
    congr 1
    funext inner
    rw [List.map_map, List.map_map]
    exact map_numberedItems hitems fun u hu _ _ _ h => (ih u hu).2 h inner.value
  | mapping v h' kind entries hcontent ih =>
    obtain ⟨fs, n', hw, hentries⟩ := h.content_of_mapping hcontent
    rw [layOut_of_mapping _ f depth (Value.inline_of_mapping hcontent),
      layOut_of_mapping _ f depth (Value.inline_of_mapping hw)]
    congr 1
    funext inner
    rw [List.map_map, List.map_map]
    refine map_numberedEntries hentries fun e he _ _ _ _ _ _ hkey hvalue => ?_
    simp only [Function.comp_apply, pair, Scribe.known, Scribe.outcome, Scribe.knowing,
      label_numbered hkey]
    have hlayOut := (ih e he).2 hvalue inner.value
    simp only [Scribe.known, Scribe.outcome, Scribe.knowing] at hlayOut
    rw [hlayOut]
  | binary v h' kind data hcontent ih =>
    have hw : w.content = .binary kind data :=
      (h.content_of_isAtom (by rw [hcontent]; trivial)).trans hcontent
    rw [Value.inline_of_binary hcontent, Value.inline_of_binary hw,
      layOut_of_binary _ f depth hcontent, layOut_of_binary _ f depth hw]

/-! ## Another limit -/

section

variable {m : Type → Type} [Monad m] (k : Scribe m) {f : Format} {limit : Value}

theorem fill_limit (newline : Text) (depth : Number) (first : Bool)
    (entries : List (m (List Part))) :
    fill k { f with maxNesting := limit } newline depth first entries =
      fill k f newline depth first entries := by
  induction entries generalizing first with
  | nil => rfl
  | cons x rest ih =>
    simp only [fill, ih]
    rfl

theorem block_limit (hlimit : ∀ depth,
    Generator.checkNesting limit depth = Generator.checkNesting f.maxNesting depth)
    (shape : Shape) (depth : Value) (entries : Number → List (m (List Part))) :
    block k { f with maxNesting := limit } shape depth entries = block k f shape depth entries := by
  have hnewline : shape.newline { f with maxNesting := limit } = shape.newline f := by
    cases shape <;> rfl
  simp only [block, hlimit, fill_limit, hnewline]
  rfl

/-- A limit that refuses the same depths lays values out in the same way. -/
theorem layOut_limit (hlimit : ∀ depth,
    Generator.checkNesting limit depth = Generator.checkNesting f.maxNesting depth) {v : Value}
    (hv : v.IsFinite) (depth : Value) :
    layOut k { f with maxNesting := limit } depth v = layOut k f depth v := by
  induction v, hv using Value.tree_induction generalizing depth with
  | scalar v h hscalar => rw [layOut_of_scalar _ _ _ hscalar, layOut_of_scalar _ _ _ hscalar]
  | sequence v h kind items hcontent ih =>
    rw [layOut_of_sequence _ _ _ hcontent, layOut_of_sequence _ _ _ hcontent, block_limit k hlimit]
    congr 1
    funext inner
    exact List.map_congr_left fun w hw => (ih w hw).2 inner.value
  | mapping v h kind entries hcontent ih =>
    rw [layOut_of_mapping _ _ _ hcontent, layOut_of_mapping _ _ _ hcontent, block_limit k hlimit]
    congr 1
    funext inner
    refine List.map_congr_left fun e he => ?_
    rw [(ih e he).2 inner.value]
    rfl
  | binary v h kind data hcontent ih =>
    rw [layOut_of_binary _ _ _ hcontent, layOut_of_binary _ _ _ hcontent]
    exact ih.2 depth

end

end Render

end JsonWriter
