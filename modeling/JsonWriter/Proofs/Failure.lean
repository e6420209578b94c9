import JsonWriter.Proofs.Configuration.Sound
import JsonWriter.Proofs.Nesting
import JsonWriter.Proofs.RoundTrip

/-!
# How generating data fails

Data are null, truth values, numbers, texts, bytes, plain objects, and containers of these whose keys are
of the same kinds but objects, or tuples of them. What of data cannot be written is a fault of generation,
and it is recorded once. A whole number of too many digits is such a fault as a value, but not in a key,
and an object that shows itself as no text is a fault of another kind. Main statement: `generate_data`.
-/

namespace JsonWriter

open Generator (Format)

namespace Value

/-- A key made of data, whose whole numbers are as asked for. What holds other values is a tuple, since
lists and dictionaries cannot be keys. -/
inductive IsKey (whole : Int → Prop) : Value → Prop
  | null : IsKey whole null
  | bool (b : Bool) : IsKey whole (bool b)
  | int {n : Int} (h : whole n) : IsKey whole (int n)
  | float (x : Binary64) : IsKey whole (float x)
  | str (t : Text) : IsKey whole (str t)
  | setting (s : Setting) : IsKey whole (setting s)
  | bytes (data : List UInt8) : IsKey whole (binary .bytes data)
  | tuple {items : List Value} (h : ∀ w ∈ items, IsKey whole w) : IsKey whole (sequence .tuple items)
  | derived {base : Value} (h : IsKey whole base) : IsKey whole (derived base)
  | own (i : Nat) {v : Value} (h : IsKey whole v) : IsKey whole (own i v)

/-- Data, where the whole numbers in keys are as asked for, and so is the content of what is written as it
shows itself: plain objects, views of memory, types and generators. -/
inductive IsData (whole : Int → Prop) (plain : Value → Prop) : Value → Prop
  | null : IsData whole plain null
  | bool (b : Bool) : IsData whole plain (bool b)
  | int (n : Int) : IsData whole plain (int n)
  | float (x : Binary64) : IsData whole plain (float x)
  | str (t : Text) : IsData whole plain (str t)
  | setting (s : Setting) : IsData whole plain (setting s)
  | binary (kind : BinaryKind) (data : List UInt8) : IsData whole plain (binary kind data)
  | sequence (kind : SequenceKind) {items : List Value} (h : ∀ w ∈ items, IsData whole plain w) :
    IsData whole plain (sequence kind items)
  | mapping (kind : MappingKind) {entries : List (Value × Value)}
    (hkeys : ∀ e ∈ entries, e.1.IsKey whole) (h : ∀ e ∈ entries, IsData whole plain e.2) :
    IsData whole plain (mapping kind entries)
  | other {v : Value} (hnode : v.node = .other) (h : plain v.content) : IsData whole plain v
  | derived {base : Value} (h : IsData whole plain base) : IsData whole plain (derived base)
  | own (i : Nat) {v : Value} (h : IsData whole plain v) : IsData whole plain (own i v)

/-- A generator has a text in any containers. -/
def IsDescribed (describe : List Nat → Nat → Option Text) (v : Value) : Prop :=
  ∀ id, v = generator id → ∀ entered, (describe entered id).isSome

section

variable {whole : Int → Prop} {plain : Value → Prop} {v : Value}

theorem IsData.content (hv : v.IsData whole plain) : v.content.IsData whole plain := by
  induction hv with
  | other hnode h => exact .other (by rw [node_content, hnode]) (by rwa [content_content])
  | derived _ ih | own _ _ ih => exact ih
  | null => exact .null
  | bool b => exact .bool b
  | int n => exact .int n
  | float x => exact .float x
  | str t => exact .str t
  | setting s => exact .setting s
  | binary kind data => exact .binary kind data
  | sequence kind h => exact .sequence kind h
  | mapping kind hkeys h => exact .mapping kind hkeys h

theorem IsData.item {kind : SequenceKind} {items : List Value} (hv : v.IsData whole plain)
    (h : v.content = .sequence kind items) : ∀ w ∈ items, w.IsData whole plain := by
  have hcontent := hv.content
  rw [h] at hcontent
  cases hcontent with
  | sequence _ h => exact h
  | other hnode _ => cases hnode

theorem IsData.entry {kind : MappingKind} {entries : List (Value × Value)}
    (hv : v.IsData whole plain) (h : v.content = .mapping kind entries) :
    ∀ e ∈ entries, e.1.IsKey whole ∧ e.2.IsData whole plain := by
  have hcontent := hv.content
  rw [h] at hcontent
  cases hcontent with
  | mapping _ hkeys h => exact fun e he => ⟨hkeys e he, h e he⟩
  | other hnode _ => cases hnode

/-- What is written as it shows itself is as asked for. -/
theorem IsData.plain_content (hv : v.IsData whole plain) (hnode : v.node = .other) :
    plain v.content := by
  induction hv with
  | other _ h => exact h
  | derived _ ih | own _ _ ih => exact ih hnode
  | _ => cases hnode

theorem isData_rawEntries (kind : BinaryKind) (data : List UInt8) :
    (dictionary (rawEntries kind data)).IsData whole plain := by
  have hbytes : ∀ w ∈ data.map fun b : UInt8 => int b.toNat, w.IsData whole plain :=
    List.forall_mem_map.mpr fun b _ => .int b.toNat
  refine .mapping _ ?_ ?_
  · exact List.forall_mem_cons.mpr ⟨.str _, List.forall_mem_singleton.mpr (.str _)⟩
  · exact List.forall_mem_cons.mpr ⟨.str _, List.forall_mem_singleton.mpr (.sequence .list hbytes)⟩

theorem isTree_of_other {allowed : Extension Value → Prop} :
    (v : Value) → v.node = .other → v.IsTree allowed
  | derived base, h => isTree_of_other base h
  | own _ v, h => isTree_of_other v h
  | null, _ | bool _, _ | int _, _ | float _, _ | str _, _ | setting _, _ | binary _ _, _ | memory _, _
  | outer _, _ | object _, _ | type _, _ | generator _, _ | described _, _ => trivial

theorem IsData.isNative (hv : v.IsData whole plain) : v.IsNative := by
  induction hv with
  | derived _ ih | own _ _ ih => exact ih
  | sequence _ _ ih => exact areTrees_of_forall ih
  | mapping _ _ _ ih => exact entriesAreTrees_of_forall ih
  | other hnode _ => exact isTree_of_other _ hnode
  | _ => trivial

end

end Value

/-! ## Outcomes -/

/-- What is returned is as stated, and so is what goes wrong. -/
def Yields {α : Type} (post : α → Prop) (fails : Fault → Prop) : Except Fault α → Prop
  | .ok a => post a
  | .error e => fails e

section

variable {α β : Type} {post : α → Prop} {fails : Fault → Prop}

theorem Yields.bind {r : Except Fault α} (hr : Yields post fails r) {post' : β → Prop}
    {k : α → Except Fault β} (hk : ∀ a, post a → Yields post' fails (k a)) :
    Yields post' fails (r >>= k) := by
  cases r with
  | error e => exact hr
  | ok a => exact hk a hr

theorem Yields.map {r : Except Fault α} (hr : Yields post fails r) {post' : β → Prop} {g : α → β}
    (hg : ∀ a, post a → post' (g a)) : Yields post' fails (r.map g) := by
  cases r with
  | error e => exact hr
  | ok a => exact hg a hr

theorem Yields.mono {r : Except Fault α} (hr : Yields post fails r) {fails' : Fault → Prop}
    (h : ∀ e, fails e → fails' e) : Yields post fails' r := by
  cases r with
  | error e => exact h e hr
  | ok a => exact hr

end

/-- The whole number has no more digits than are written. -/
def Decimal.IsShort (n : Int) : Prop := n.natAbs < tenTo digitLimit

instance (n : Int) : Decidable (Decimal.IsShort n) := inferInstanceAs (Decidable (_ < _))

/-! ## Keys -/

namespace Value

theorem IsKey.content_ne {whole : Int → Prop} {v : Value} (hv : v.IsKey whole) (w : Value) :
    v.content ≠ object w := by
  induction hv with
  | derived _ ih | own _ _ ih => exact ih
  | _ => simp [content]

theorem literalItems_isSome {describe : List Nat → Nat → Option Text} {entered : List Nat}
    {bound : List Text} {items : List Value} :
    (literalItems describe entered bound items).isSome ↔
      ∀ w ∈ items, (w.literalIn describe entered bound).isSome := by
  induction items with
  | nil => simp [literalItems]
  | cons w rest ih =>
    rw [literalItems, List.forall_mem_cons, ← ih]
    cases w.literalIn describe entered bound <;> simp

/-- A key whose whole numbers are short has a form for messages, in any surroundings. -/
theorem literalIn_of_isKey {v : Value} (hv : v.IsKey Decimal.IsShort)
    (describe : List Nat → Nat → Option Text) (entered : List Nat) (bound : List Text) :
    (v.literalIn describe entered bound).isSome := by
  induction hv generalizing entered with
  | int h =>
    rw [Decimal.IsShort] at h
    simp [literalIn, Decimal.ofInt?, h]
  | tuple _ ih =>
    have hitems := literalItems_isSome.mpr fun w hw => ih w hw entered
    simpa [literalIn] using hitems
  | own i _ ih =>
    rw [literalIn]
    split
    · rfl
    · exact ih (i :: entered)
  | _ => rfl

/-- The form for output of a key that is no text is the one for messages. -/
theorem shown?_of_isKey {whole : Int → Prop} {v : Value} (hv : v.IsKey whole)
    (describe : List Nat → Nat → Option Text) :
    (v.shown? describe).isSome ∨ v.shown? describe = v.literal? describe := by
  cases hv with
  | str t | setting s => exact .inl rfl
  | own i h =>
    cases h <;> exact .inr rfl
  | _ => exact .inr rfl

/-! ## Plain objects -/

/-- What is written as it shows itself has a form for messages, but for a generator that has none. -/
theorem literalIn_of_other {describe : List Nat → Nat → Option Text} : (v : Value) → v.node = .other →
    v.content.IsDescribed describe → ∀ entered bound, (v.literalIn describe entered bound).isSome
  | own i v, hnode, hdescribed, entered, bound => by
    rw [literalIn]
    split
    · rfl
    · exact literalIn_of_other v hnode hdescribed (i :: entered) bound
  | generator id, _, hdescribed, entered, _ => hdescribed id rfl entered
  | derived _, _, _, _, _ | memory _, _, _, _, _ | outer _, _, _, _, _ | object _, _, _, _, _
  | type _, _, _, _, _ | described _, _, _, _, _ => rfl

/-- An object has a form for output of its own. All else of its kind has the one for messages. -/
theorem shown?_of_other {v : Value} (hnode : v.node = .other)
    (describe : List Nat → Nat → Option Text) :
    (∃ shown, v.content = .object shown ∧ v.shown? describe = shown.text?) ∨
      v.shown? describe = v.literal? describe := by
  cases v with
  | object shown => exact .inl ⟨shown, rfl, rfl⟩
  | own i w =>
    cases w with
    | object shown => exact .inl ⟨shown, rfl, rfl⟩
    | mapping _ _ => cases hnode
    | _ => exact .inr rfl
  | str _ | setting _ | mapping _ _ => cases hnode
  | _ => exact .inr rfl

end Value

/-- The faults of a plain object with this content: it is a generator without a text, or it shows itself as
something that is no text. -/
def Fault.OfPlain (describe : List Nat → Nat → Option Text) (content : Value) (e : Fault) : Prop :=
  e = .value .tooManyDigits ∧ ¬ content.IsDescribed describe ∨
    ∃ shown, e = .type (.notShownAsText shown.kind) ∧ shown.text? = none ∧ content = .object shown

namespace Render

/-- A plain object is shown, unless it has no text. -/
theorem plain_yields {v : Value} (hnode : v.node = .other) (s : Session) :
    Yields (fun _ => True) (Fault.OfPlain s.describe v.content) (Action.shown v s).1 := by
  have hliteral (h : v.literal? s.describe = none) : ¬ v.content.IsDescribed s.describe := by
    intro hdescribed
    have hsome := Value.literalIn_of_other v hnode hdescribed [] []
    rw [← Value.literal?, h] at hsome
    cases hsome
  unfold Action.shown
  split
  · trivial
  · next shown hcontent hnone =>
    obtain ⟨shown', hcontent', hshown⟩ | hsame := Value.shown?_of_other hnode s.describe
    · obtain rfl := Value.object.inj (hcontent.symm.trans hcontent')
      exact .inr ⟨shown, rfl, hshown.symm.trans hnone, hcontent⟩
    · refine absurd ?_ (hliteral (hsame.symm.trans hnone))
      rw [hcontent]
      exact nofun
  · next hnone hother =>
    obtain ⟨shown, hcontent, -⟩ | hsame := Value.shown?_of_other hnode s.describe
    · exact absurd hcontent (hother shown)
    · exact .inl ⟨rfl, hliteral (hsame.symm.trans hnone)⟩

/-- A key is shown unless a whole number in it has too many digits. -/
theorem shown_yields {key : Value} (hkey : key.IsKey fun _ => True) (s : Session) :
    Yields (fun _ => True) (fun e => e = .value .tooManyDigits ∧ ¬ key.IsKey Decimal.IsShort)
      (Action.shown key s).1 := by
  have hlong (h : key.shown? s.describe = none) : ¬ key.IsKey Decimal.IsShort := by
    intro hshort
    have hliteral := Value.literalIn_of_isKey hshort s.describe [] []
    obtain hsome | heq := Value.shown?_of_isKey hkey s.describe
    · simp [h] at hsome
    · rw [← Value.literal?, ← heq, h] at hliteral
      cases hliteral
  unfold Action.shown
  split
  · trivial
  · next shown hcontent _ => exact absurd hcontent (hkey.content_ne shown)
  · next hnone _ => exact ⟨rfl, hlong hnone⟩

theorem quoted_yields (asciiOnly : Bool) (t shown : Text) (s : Session) :
    Yields (fun _ => True) Fault.IsGeneration (quoted asciiOnly t shown s).1 := by
  rw [quoted_eq]
  split <;> trivial

/-- A key is written, or it is a fault of generation, unless it cannot be shown. -/
theorem label_yields {key : Value} (hkey : key.IsKey fun _ => True) (f : Format) (s : Session) :
    Yields (fun _ => True)
      (fun e => e.IsGeneration ∨ e = .value .tooManyDigits ∧ ¬ key.IsKey Decimal.IsShort)
      (label f key s).1 := by
  refine label_induction (P := fun x => ∀ s, Yields (fun _ => True) _ (x s).1) ?_ ?_ f s
  · exact fun asciiOnly t shown s => (quoted_yields asciiOnly t shown s).mono fun _ h => .inl h
  · intro k hk s
    have hshown := shown_yields hkey s
    rw [Action.bind_apply]
    generalize Action.shown key s = run at hshown
    obtain ⟨_ | t, s'⟩ := run
    · exact .inr hshown
    · exact hk t s'

/-- A scalar among data is written, or it is a fault of generation, unless it is a plain object that has no
text. -/
theorem leaf_yields {whole : Int → Prop} {plain : Value → Prop} {v : Value} (hv : v.IsData whole plain)
    (hscalar : container? v = none) (extend : Extender) (f : Format) (depth : Value) (s : Session) :
    Yields (fun _ => True)
      (fun e => e.IsGeneration ∨ v.node = .other ∧ e.OfPlain s.describe v.content)
      (leaf extend f v depth s).1 := by
  unfold leaf
  cases hnode : v.node with
  | null | bool b => trivial
  | str t => exact (quoted_yields _ _ _ _).mono fun _ h => .inl h
  | int n =>
    change Yields _ _ (number n s).1
    unfold number
    cases Decimal.ofInt? n
    · exact .inl trivial
    · trivial
  | float x =>
    simp only [float]
    split
    · trivial
    · split
      · trivial
      · exact .inl trivial
  | array items | object entries => simp [container?, hnode] at hscalar
  | extension e => exact (Value.allowed_of_node v hv.isNative hnode).elim
  | other =>
    have hshown := plain_yields hnode s
    change Yields _ _ ((Action.shown v >>= fun t => quoted f.asciiOnly t (shownText v t)) s).1
    rw [Action.bind_apply]
    generalize Action.shown v s = run at hshown
    obtain ⟨_ | t, s'⟩ := run
    · exact .inr ⟨rfl, hshown⟩
    · exact (quoted_yields _ _ _ _).mono fun _ h => .inl h

/-! ## Layout -/

/-- The parts are texts. -/
def Joins (parts : List Part) : Prop := ∃ t, Part.join parts = .ok t

theorem Joins.append {before after : List Part} (hbefore : Joins before) (hafter : Joins after) :
    Joins (before ++ after) := by
  obtain ⟨u, hu⟩ := hbefore
  obtain ⟨v, hv⟩ := hafter
  exact ⟨u ++ v, Part.join_append_eq_ok.mpr ⟨u, v, hu, hv, rfl⟩⟩

theorem Joins.cons (t : Text) {rest : List Part} (hrest : Joins rest) : Joins (.text t :: rest) := by
  obtain ⟨v, hv⟩ := hrest
  exact ⟨t ++ v, Part.join_cons_eq_ok.mpr ⟨v, hv, rfl⟩⟩

theorem joins_nil : Joins [] := ⟨[], rfl⟩

section

variable {tokens : Value → Value → Except Fault Text} {keys : Value → Except Fault Text}
  {fails : Fault → Prop} {f : Format}

theorem gap_yields {newline : Text} {depth : Number}
    (hmargin : Yields Joins fails (margin f newline depth)) (first : Bool) :
    Yields Joins fails (gap f newline depth first) := by
  refine hmargin.map fun parts hparts => ?_
  split
  · exact hparts
  · exact hparts.cons _

theorem fill_yields {newline : Text} {depth : Number}
    (hmargin : Yields Joins fails (margin f newline depth)) {entries : List (Except Fault (List Part))}
    (h : ∀ r ∈ entries, Yields Joins fails r) (first : Bool) :
    Yields Joins fails (fill (.knowing tokens keys) f newline depth first entries) := by
  induction entries generalizing first with
  | nil => exact joins_nil
  | cons r rest ih =>
    obtain ⟨hr, hrest⟩ := List.forall_mem_cons.mp h
    refine (gap_yields hmargin first).bind fun before hbefore => hr.bind fun parts hparts => ?_
    refine (ih hrest false).bind fun more hmore => ?_
    exact (hbefore.append hparts).append hmore

theorem ending_yields {newline : Text} {depth : Number}
    (hmargin : Yields Joins fails (margin f newline depth)) (shape : Shape) :
    Yields Joins fails (ending f shape newline depth) :=
  hmargin.map fun _ hparts => (hparts.append (joins_nil.cons _)).cons _

theorem block_yields {shape : Shape} {depth : Value} {d : Int} (hd : depth.int? = some d)
    (hopens : Yields (fun _ => True) fails (Generator.checkNesting f.maxNesting depth))
    (hnewline : ∃ newline, shape.newline f = .ok newline)
    (hinner : ∀ newline, Yields Joins fails (margin f newline (.whole (d + 1))))
    (houter : ∀ newline, Yields Joins fails (margin f newline (.whole d)))
    {entries : Number → List (Except Fault (List Part))}
    (h : ∀ r ∈ entries (.whole (d + 1)), Yields Joins fails r) :
    Yields Joins fails (block (.knowing tokens keys) f shape depth entries) := by
  obtain ⟨newline, hnewline⟩ := hnewline
  have hpred : (Number.whole (d + 1)).pred = .whole d := by
    simp [Number.pred, Number.shift, Number.add?, Number.whole?]
  simp only [block, Scribe.knowing, hnewline, Value.succ_of_int? hd]
  refine hopens.bind fun _ _ => ?_
  refine (fill_yields (hinner newline) h true).bind fun body hbody => ?_
  rw [hpred]
  refine (ending_yields (houter newline) shape).bind fun last hlast => ?_
  exact (hbody.cons _).append hlast

theorem pair_yields {key : Value} (hkey : Yields (fun _ => True) fails (keys key))
    (hcolon : ∃ colon, f.colon = .ok colon) {value : Except Fault (List Part)}
    (hvalue : Yields Joins fails value) :
    Yields Joins fails (pair (.knowing tokens keys) f key value) := by
  obtain ⟨colon, hcolon⟩ := hcolon
  simp only [pair, Scribe.knowing, hcolon]
  refine hkey.bind fun label _ => hvalue.bind fun parts hparts => ?_
  exact (hparts.cons _).cons _

end

end Render

namespace Fault

/-- The faults of another kind that data come to which reach down to a depth. A whole number is too long to
be written, in a key, in the text of a generator or as the depth of a container; an object in the data
shows itself as something that is no text; or an indentation is too long. -/
def Escapes (v : Value) (describe : List Nat → Nat → Option Text) (indent : Text) (deepest : Int)
    (e : Fault) : Prop :=
  e = .value .tooManyDigits ∧
      (¬ v.IsData Decimal.IsShort (Value.IsDescribed describe) ∨ ¬ Decimal.IsShort deepest) ∨
    (∃ shown : Value, e = .type (.notShownAsText shown.kind) ∧ shown.text? = none ∧
      ¬ v.IsData (fun _ => True) fun w => w ≠ .object shown) ∨
    ∃ c, e = .overflow c ∧ 2 ^ 63 ≤ deepest * (max 1 indent.length : Nat)

/-- The faults that such data come to. -/
def Arises (v : Value) (describe : List Nat → Nat → Option Text) (indent : Text) (deepest : Int)
    (e : Fault) : Prop :=
  e.IsGeneration ∨ e.Escapes v describe indent deepest

/-- What goes wrong with a plain object within the data. -/
theorem OfPlain.arises {describe : List Nat → Nat → Option Text} {indent : Text} {deepest : Int}
    {e : Fault} {u v : Value} (hv : ∀ whole plain, u.IsData whole plain → v.IsData whole plain)
    (hnode : v.node = .other) (h : e.OfPlain describe v.content) :
    e.Arises u describe indent deepest := by
  obtain ⟨rfl, hnone⟩ | ⟨shown, rfl, htext, hcontent⟩ := h
  · exact .inr (.inl ⟨rfl, .inl fun hu => hnone ((hv _ _ hu).plain_content hnode)⟩)
  · refine .inr (.inr (.inl ⟨shown, rfl, htext, fun hu => ?_⟩))
    exact (hv _ _ hu).plain_content hnode hcontent

end Fault

namespace Render

section

variable {f : Format} {u : Value} {describe : List Nat → Nat → Option Text} {indent : Text}
  {deepest : Int}

theorem checkNesting_yields {x : Number} {m : Int} (hx : f.maxNesting.number? = some x)
    (hm : x.whole? = some m) {depth : Value} {d : Int} (hd : depth.int? = some d) (hpos : 0 ≤ d)
    (hdeep : d + 1 ≤ deepest) :
    Yields (fun _ => True) (Fault.Arises u describe indent deepest)
      (Generator.checkNesting f.maxNesting depth) := by
  rw [checkNesting_eq hx hm hd]
  split
  · by_cases hshort : (Number.whole (d + 1)).IsShort
    · rw [Fault.tooDeep, if_pos hshort]
      exact .inl trivial
    · rw [Fault.tooDeep, if_neg hshort]
      refine .inr (.inl ⟨rfl, .inr fun hdeepest => hshort ?_⟩)
      rw [Decimal.IsShort] at hdeepest
      have hlt : (d + 1).natAbs < Decimal.tenTo Decimal.digitLimit := by omega
      simp [Number.IsShort, Decimal.ofInt?, hlt]
  · trivial

theorem margin_yields (hindent : f.indent.text? = some indent) {n : Int} (hpos : 0 ≤ n)
    (hdeep : n ≤ deepest) (newline : Text) :
    Yields Joins (Fault.Arises u describe indent deepest) (margin f newline (.whole n)) := by
  have hwide {k : Nat} (hk : k ≤ max 1 indent.length) (h : 2 ^ 63 ≤ n * k) :
      2 ^ 63 ≤ deepest * max 1 indent.length :=
    calc (2 : Int) ^ 63 ≤ n * k := h
      _ ≤ n * max 1 indent.length := Int.mul_le_mul_of_nonneg_left (Int.ofNat_le.mpr hk) hpos
      _ ≤ deepest * max 1 indent.length := Int.mul_le_mul_of_nonneg_right hdeep (by omega)
  unfold margin
  split
  · exact joins_nil
  · simp only [Value.times, Value.number?_of_text? hindent, Value.repeater?_of_text? hindent,
      Number.whole?, Value.repetitions]
    -- First the number of times has to fit a machine word, then the length of the whole.
    split
    · have hn : 2 ^ 63 ≤ n * (1 : Nat) := by omega
      exact .inr (.inr (.inr ⟨_, rfl, hwide (by omega) hn⟩))
    · simp only [Except.bind, Value.checkLength]
      split
      · exact joins_nil.cons _
      · have hn : 2 ^ 63 ≤ n * indent.length := by
          have hcast : ((indent.length * n.toNat : Nat) : Int) = n * indent.length := by
            rw [Nat.cast_mul, Int.toNat_of_nonneg hpos, Int.mul_comm]
          omega
        exact .inr (.inr (.inr ⟨_, rfl, hwide (by omega) hn⟩))

/-- The layout of data has texts for parts, or it fails as data can. -/
theorem layOut_yields (hf : f.HasLayout fun _ => True) (hindent : f.indent.text? = some indent)
    {x : Number} {m : Int} (hx : f.maxNesting.number? = some x) (hm : x.whole? = some m) {s : Session}
    {u v : Value} (hv : v.IsData (fun _ => True) fun _ => True)
    (hwithin : ∀ whole plain, u.IsData whole plain → v.IsData whole plain) {depth : Value} {d : Int}
    (hd : depth.int? = some d) (hpos : 0 ≤ d) (hdeep : d + v.height ≤ deepest) :
    Yields Joins (Fault.Arises u s.describe indent deepest) (layOut (.outcome f s) f depth v) := by
  have hnewline (shape : Shape) : ∃ newline, shape.newline f = .ok newline := by
    obtain ⟨newline, hnewline, -⟩ := hf.newline shape
    exact ⟨newline, hnewline⟩
  have hblock {shape : Shape} {depth : Value} {d : Int} (hd : depth.int? = some d) (hpos : 0 ≤ d)
      (hopen : d + 1 ≤ deepest) {entries : Number → List (Except Fault (List Part))}
      (h : ∀ r ∈ entries (.whole (d + 1)), Yields Joins (Fault.Arises u s.describe indent deepest) r) :
      Yields Joins (Fault.Arises u s.describe indent deepest)
        (block (.outcome f s) f shape depth entries) :=
    block_yields hd (checkNesting_yields hx hm hd hpos hopen) (hnewline shape)
      (margin_yields hindent (by omega) hopen) (margin_yields hindent hpos (by omega)) h
  -- Every level uses up one of the levels that the value may still reach down.
  induction v, hv.isNative using Value.tree_induction generalizing depth d with
  | scalar v h hscalar =>
    rw [layOut_of_scalar _ _ _ hscalar]
    have htoken := (leaf_yields hv hscalar (fun _ _ => Action.fail .endless) f depth s).mono fun e he =>
      he.elim (fun hgeneration => (.inl hgeneration : e.Arises u s.describe indent deepest))
        fun hplain => hplain.2.arises hwithin hplain.1
    exact htoken.bind fun t _ => joins_nil.cons t
  | sequence v h kind items hcontent ih =>
    have hheight := Value.height_of_sequence hcontent
    rw [layOut_of_sequence _ _ _ hcontent]
    refine hblock hd hpos (by omega) (List.forall_mem_map.mpr fun w hw => ?_)
    have hlow := Value.height_le_heightItems hw
    obtain ⟨_, ih⟩ := ih w hw
    exact ih (hv.item hcontent w hw) (fun _ _ hu => (hwithin _ _ hu).item hcontent w hw) rfl (by omega)
      (by omega)
  | mapping v h kind entries hcontent ih =>
    have hheight := Value.height_of_mapping hcontent
    rw [layOut_of_mapping _ _ _ hcontent]
    refine hblock hd hpos (by omega) (List.forall_mem_map.mpr fun e he => ?_)
    have hlow := Value.height_le_heightEntries he
    obtain ⟨hkey, hvalue⟩ := hv.entry hcontent e he
    obtain ⟨before, after, hcolon, -⟩ := hf.colon
    have hlabel : Yields (fun _ => True) (Fault.Arises u s.describe indent deepest)
        (label f e.1 s).1 := by
      refine (label_yields hkey f s).mono fun fault hfault => hfault.imp_right fun hlong => ?_
      exact .inl ⟨hlong.1, .inl fun hu => hlong.2 ((hwithin _ _ hu).entry hcontent e he).1⟩
    obtain ⟨_, ih⟩ := ih e he
    exact pair_yields hlabel ⟨_, hcolon⟩
      (ih hvalue (fun _ _ hu => ((hwithin _ _ hu).entry hcontent e he).2) rfl (by omega) (by omega))
  | binary v h kind data hcontent ih =>
    rw [layOut_of_binary _ _ _ hcontent]
    rw [Value.height_of_binary hcontent] at hdeep
    exact ih.2 (Value.isData_rawEntries kind data) (fun _ _ _ => Value.isData_rawEntries kind data) hd
      hpos hdeep

end

end Render

/-! ## Generating -/

theorem checkOutput_yields (asciiOnly : Bool) (t : Text) :
    Yields (fun _ => True) Fault.IsGeneration (checkOutput asciiOnly t) := by
  unfold checkOutput
  split
  · trivial
  · split <;> trivial

/-- The checked text of data under a valid generator is there, or it fails as data can. -/
theorem checked_yields {g : Generator} (hvalid : g.IsValid) {v : Value}
    (hv : v.IsData (fun _ => True) fun _ => True) {d : Int} (hd : g.depth.int? = some d) {indent : Text}
    (hindent : g.indent.text? = some indent) (s : Session) :
    Yields (fun _ => True) (Fault.Arises v s.describe indent (d + v.height)) (do
      let t ← Render.Part.join (← Render.layOut (.outcome g.format s) g.format g.depth v)
      checkOutput g.asciiOnly.isTrue t
      return t) := by
  obtain ⟨n, hn, hpos⟩ := hvalid.depth_isDepth
  obtain rfl : n = d := Option.some.inj ((Value.int?_of_wholeNumber? hn).symm.trans hd)
  obtain ⟨m, hm, -⟩ := hvalid.maxNesting_isDepth
  obtain ⟨x, hx, hxm⟩ := Value.number?_of_int? (Value.int?_of_wholeNumber? hm)
  have htexts : g.HasLayout fun _ => True := by
    intro t ht
    obtain ⟨u, hu⟩ := hvalid.text ht
    exact ⟨u, hu, fun _ _ => trivial⟩
  have hlayout := Render.layOut_yields (s := s) htexts.format hindent hx hxm hv (fun _ _ hv => hv) hd hpos
    (Int.le_refl _)
  refine hlayout.bind fun parts hparts => ?_
  obtain ⟨t, ht⟩ := hparts
  rw [ht]
  have hchecked := (checkOutput_yields g.asciiOnly.isTrue t).mono fun e he =>
    (.inl he : e.Arises v s.describe indent (n + v.height))
  exact hchecked.bind fun _ _ => trivial

theorem Fault.Escapes.not_isGeneration {v : Value} {describe : List Nat → Nat → Option Text}
    {indent : Text} {deepest : Int} {e : Fault} (h : e.Escapes v describe indent deepest) :
    ¬ e.IsGeneration := by
  obtain ⟨rfl, -⟩ | ⟨_, rfl, -⟩ | ⟨_, rfl, -⟩ := h <;> exact not_false

/-- With a valid generator data are written, or else they come to a fault of generation that is recorded
once. There is no other fault unless a whole number in a key or in the text of a generator has too many
digits, or the depth does, or an object shows itself as no text, or an indentation is longer than any
text. Those are not recorded. Of the session only the counters of calls change besides. -/
theorem generate_data {v : Value} (hv : v.IsData (fun _ => True) fun _ => True) {s : Session} {id : Nat}
    {g : Generator} (hg : s.generator? id = some g) (hvalid : g.IsValid) {d : Int}
    (hd : g.depth.int? = some d) {indent : Text} (hindent : g.indent.text? = some indent) :
    ∃ p,
      (∃ t, generate v id s = (.ok t, { s with profile := p })) ∨
      (∃ f : Fault, f.IsGeneration ∧
        generate v id s = (.error f, { s with profile := p, log := s.log.push (.failed f) })) ∨
      ∃ f : Fault, f.Escapes v s.describe indent (d + v.height) ∧
        generate v id s = (.error f, { s with profile := p }) := by
  have houtcome := checked_yields hvalid hv hd hindent s
  obtain ⟨p, hrun⟩ := generate_eq hv.isNative hg
  refine ⟨p, ?_⟩
  rw [hrun]
  generalize (do
    let t ← Render.Part.join (← Render.layOut (.outcome g.format s) g.format g.depth v)
    checkOutput g.asciiOnly.isTrue t
    return t) = outcome at houtcome
  cases outcome with
  | ok t => exact .inl ⟨t, rfl⟩
  | error f =>
    obtain hgeneration | hescapes := houtcome
    · exact .inr (.inl ⟨f, hgeneration, by simp only [Action.logged, if_pos hgeneration]⟩)
    · refine .inr (.inr ⟨f, hescapes, ?_⟩)
      simp only [Action.logged, if_neg hescapes.not_isGeneration]

/-- A number of one digit more than is written. -/
def longNumber : Int := (Decimal.tenTo Decimal.digitLimit : Nat)

/-- That number as a value, in a list in a dictionary, after an object that shows itself as a text. -/
def longSample : Value :=
  .dictionary [(.str (text "a"), .list [.object (.str (text "x")), .int longNumber])]

/-- An object that shows itself as a number. -/
def unshownSample : Value := .list [.object (.int 1)]

/-- As a value the number is a fault of generation, which is recorded once. The object that has no text is a
fault of another kind, and is not recorded. -/
theorem generate_longSample :
    let s := { Session.initial true with generators := #[.initial] }
    (longSample.IsData (fun _ => True) fun _ => True) ∧
      (unshownSample.IsData (fun _ => True) fun _ => True) ∧ Generator.initial.IsValid ∧
      (∃ p, generate longSample 0 s = (.error (.encoding .tooManyDigits),
        { s with profile := p, log := s.log.push (.failed (.encoding .tooManyDigits)) })) ∧
      ∃ p, generate unshownSample 0 s = (.error (.type (.notShownAsText (text "int"))),
        { s with profile := p }) := by
  intro s
  have hv : longSample.IsData (fun _ => True) fun _ => True :=
    .mapping .dictionary (List.forall_mem_singleton.mpr (.str _)) (List.forall_mem_singleton.mpr
      (.sequence .list (List.forall_mem_cons.mpr
        ⟨.other rfl trivial, List.forall_mem_singleton.mpr (.int _)⟩)))
  have hw : unshownSample.IsData (fun _ => True) fun _ => True :=
    .sequence .list (List.forall_mem_singleton.mpr (.other rfl trivial))
  have hg : s.generator? 0 = some .initial := rfl
  refine ⟨hv, hw, Generator.isValid_initial, ?_, ?_⟩
  · have houtcome : (generate longSample 0 s).1 = .error (.encoding .tooManyDigits) := by
      rw [generate_outcome hv.isNative hg]
      decide +kernel
    obtain ⟨p, ⟨t, hrun⟩ | ⟨f, -, hrun⟩ | ⟨f, hescapes, hrun⟩⟩ :=
      generate_data hv hg Generator.isValid_initial rfl rfl
    · rw [hrun] at houtcome
      cases houtcome
    · rw [hrun] at houtcome
      obtain rfl := Except.error.inj houtcome
      exact ⟨p, hrun⟩
    · rw [hrun] at houtcome
      obtain rfl := Except.error.inj houtcome
      exact absurd trivial hescapes.not_isGeneration
  · have houtcome : (generate unshownSample 0 s).1 = .error (.type (.notShownAsText (text "int"))) := by
      rw [generate_outcome hw.isNative hg]
      decide +kernel
    obtain ⟨p, ⟨t, hrun⟩ | ⟨f, hgeneration, hrun⟩ | ⟨f, -, hrun⟩⟩ :=
      generate_data hw hg Generator.isValid_initial rfl rfl
    · rw [hrun] at houtcome
      cases houtcome
    · rw [hrun] at houtcome
      obtain rfl := Except.error.inj houtcome
      exact hgeneration.elim
    · rw [hrun] at houtcome
      obtain rfl := Except.error.inj houtcome
      exact ⟨p, hrun⟩

/-- That number as a key. -/
def longKeySample : Value := .dictionary [(.int longNumber, .int 1)]

/-- As a key the number is a fault of another kind, and nothing is recorded. -/
theorem generate_longKeySample :
    let s := { Session.initial true with generators := #[.initial] }
    (longKeySample.IsData (fun _ => True) fun _ => True) ∧ Generator.initial.IsValid ∧
      (generate longKeySample 0 s).1 = .error (.value .tooManyDigits) ∧
      ¬ (Fault.value .tooManyDigits).IsGeneration ∧ (generate longKeySample 0 s).2.log = #[] := by
  intro s
  have hv : longKeySample.IsData (fun _ => True) fun _ => True :=
    .mapping .dictionary (List.forall_mem_singleton.mpr (.int trivial))
      (List.forall_mem_singleton.mpr (.int _))
  have hg : s.generator? 0 = some .initial := rfl
  have houtcome : (generate longKeySample 0 s).1 = .error (.value .tooManyDigits) := by
    rw [generate_outcome hv.isNative hg]
    decide +kernel
  refine ⟨hv, Generator.isValid_initial, houtcome, not_false, ?_⟩
  obtain ⟨p, hrun⟩ := generate_eq hv.isNative hg
  rw [generate_outcome hv.isNative hg] at houtcome
  rw [hrun, houtcome]
  rfl

end JsonWriter
