import JsonWriter.Proofs.Binary

/-!
# Reading tagged objects

Bytes are made of a mapping whose tag names their kind and which holds an array of their numbers. What is
wrong with any other value is told with the form of what is wrong, and there is no such form where a
number in it has too many digits. Main statements: `unwrap_outcome` and `unwrap_inverts`.
-/

namespace JsonWriter

/-! ## Looking up names -/

/-- The value stands under the last key of the mapping that is equal to the name. -/
def Value.Holds (v : Value) (name : Text) (w : Value) : Prop :=
  ∃ before key after, v.entries? = some (before ++ (key, w) :: after) ∧ key.text? = some name ∧
    ∀ e ∈ after, e.1.text? ≠ some name

theorem Entries.last?_eq_some_iff {name : Text} {es : Entries} {w : Value} :
    es.last? name = some w ↔ ∃ before key after, es = before ++ (key, w) :: after ∧
      key.text? = some name ∧ ∀ e ∈ after, e.1.text? ≠ some name := by
  simp only [last?, Option.map_eq_some_iff, List.find?_eq_some_iff_append, beq_iff_eq, Bool.not_eq_true',
    beq_eq_false_iff_ne, Prod.exists]
  constructor
  · rintro ⟨key, u, ⟨hkey, after, before, hes, hafter⟩, rfl⟩
    refine ⟨before.reverse, key, after.reverse, ?_, hkey, fun e he => hafter e (List.mem_reverse.mp he)⟩
    rw [← List.reverse_reverse es, hes]
    simp
  · rintro ⟨before, key, after, rfl, hkey, hafter⟩
    refine ⟨key, w, ⟨hkey, after.reverse, before.reverse, by simp, ?_⟩, rfl⟩
    exact fun e he => hafter e (List.mem_reverse.mp he)

theorem Value.holds_iff {v : Value} {es : Entries} (hes : v.entries? = some es) {name : Text} {w : Value} :
    v.Holds name w ↔ es.last? name = some w := by
  simp only [Holds, hes, Option.some.injEq, Entries.last?_eq_some_iff]

theorem Value.Holds.entries? {v w : Value} {name : Text} (h : v.Holds name w) :
    ∃ es, v.entries? = some es := by
  obtain ⟨before, key, after, hes, -⟩ := h
  exact ⟨_, hes⟩

theorem Value.shown?_of_wholeNumber? {v : Value} {n : Int} (h : v.wholeNumber? = some n)
    (describe : List Nat → Nat → Option Text) : v.shown? describe = v.literal? describe := by
  unfold shown?
  split <;> first | rfl | simp [wholeNumber?, content] at h

/-- A whole number shows itself for output as in messages. -/
theorem Action.shown_of_wholeNumber? {v : Value} {n : Int} (h : v.wholeNumber? = some n) :
    shown v = literal v := by
  have hcontent : v.content = .int n := by
    unfold Value.wholeNumber? at h
    split at h <;> simp_all
  funext s
  rw [shown, literal_apply, hcontent, Value.shown?_of_wholeNumber? h]
  cases v.literal? s.describe <;> rfl

/-- A text has a form for messages. -/
theorem Value.literalIn_isSome_of_text? (describe : List Nat → Nat → Option Text) (bound : List Text) :
    (v : Value) → (entered : List Nat) → {t : Text} → v.text? = some t →
      (v.literalIn describe entered bound).isSome
  | .str _, _, _, _ | .setting _, _, _, _ | .derived _, _, _, _ => rfl
  | .own i v, entered, _, h => by
    rw [literalIn]
    split
    · rfl
    · exact literalIn_isSome_of_text? describe bound v (i :: entered) h

namespace RawObject

/-! ## Elements -/

/-- The value is the number of a byte, and no truth value. -/
def IsByte (item : Value) : Prop := ∃ n, item.wholeNumber? = some n ∧ 0 ≤ n ∧ n < 0x100

/-- The fault for a value that is told with its form. -/
def quoting (describe : List Nat → Nat → Option Text) (w : Value) (cause : Text → EncodingFault) :
    Fault :=
  match w.literal? describe with
  | some t => .encoding (cause t)
  | none => .value .tooManyDigits

/-- The fault for an element that is no byte. -/
def refusal (describe : List Nat → Nat → Option Text) (index : Nat) (item : Value) : Fault :=
  quoting describe item
    (if item.wholeNumber?.isSome then .rawOutOfRange index else .rawNotInteger index)

/-- The elements are the numbers of the bytes. -/
def AreBytes (items : List Value) (data : List UInt8) : Prop :=
  items.map Value.wholeNumber? = data.map fun b => some (b.toNat : Int)

theorem literal_quoting {α : Type} (w : Value) (cause : Text → EncodingFault) (s : Session) :
    (Action.literal w >>= fun t => Action.fail (.encoding (cause t)) : Action α) s =
      (.error (quoting s.describe w cause), s) := by
  rw [Action.bind_apply, Action.literal_apply, quoting]
  cases w.literal? s.describe <;> rfl

theorem bytes_of_areBytes {items : List Value} {data : List UInt8} (h : AreBytes items data) (index : Nat)
    (s : Session) : bytes index items s = (.ok data, s) := by
  induction items generalizing data index with
  | nil =>
    obtain rfl : data = [] := by simpa [AreBytes] using h.symm
    rfl
  | cons item rest ih =>
    cases data with
    | nil => cases h
    | cons b data =>
      obtain ⟨hitem, hrest⟩ := List.cons_eq_cons.mp h
      have hrange : 0 ≤ (b.toNat : Int) ∧ (b.toNat : Int) < 0x100 := by
        have := b.toNat_lt
        omega
      simp only [bytes, hitem, if_pos hrange, Action.bind_apply, ih hrest, Action.resume_ok,
        Action.pure_apply, Int.toNat_natCast, UInt8.ofNat_toNat]

/-- The first element that is no byte is told with its index. -/
theorem bytes_of_first {before : List Value} {item : Value} (hbefore : ∀ u ∈ before, IsByte u)
    (hitem : ¬ IsByte item) (after : List Value) (index : Nat) (s : Session) :
    bytes index (before ++ item :: after) s =
      (.error (refusal s.describe (index + before.length) item), s) := by
  induction before generalizing index with
  | nil =>
    rw [List.nil_append, bytes]
    cases hn : item.wholeNumber? with
    | none =>
      simp only [refusal, hn]
      exact literal_quoting _ _ s
    | some n =>
      have hrange : ¬ (0 ≤ n ∧ n < 0x100) := fun h => hitem ⟨n, hn, h⟩
      simp only [if_neg hrange, refusal, hn, Option.isSome_some, if_true, Action.shown_of_wholeNumber? hn]
      exact literal_quoting _ _ s
  | cons u rest ih =>
    obtain ⟨⟨n, hn, hrange⟩, hrest⟩ := List.forall_mem_cons.mp hbefore
    simp only [List.cons_append, bytes, hn, if_pos hrange, Action.bind_apply, ih hrest, Action.resume_error,
      List.length_cons, Nat.add_assoc, Nat.add_comm 1]

theorem areBytes_or_first (items : List Value) :
    (∃ data, AreBytes items data) ∨ ∃ before item after, items = before ++ item :: after ∧
      (∀ u ∈ before, IsByte u) ∧ ¬ IsByte item := by
  induction items with
  | nil => exact .inl ⟨[], rfl⟩
  | cons item rest ih =>
    by_cases hitem : IsByte item
    · obtain ⟨data, hdata⟩ | ⟨before, bad, after, rfl, hbefore, hbad⟩ := ih
      · obtain ⟨n, hn, hle, hlt⟩ := hitem
        have hbyte : ((UInt8.ofNat n.toNat).toNat : Int) = n := by
          rw [UInt8.toNat_ofNat']
          omega
        exact .inl ⟨.ofNat n.toNat :: data,
          List.cons_eq_cons.mpr ⟨hn.trans (congrArg some hbyte.symm), hdata⟩⟩
      · exact .inr ⟨item :: before, bad, after, rfl, List.forall_mem_cons.mpr ⟨hitem, hbefore⟩, hbad⟩
    · exact .inr ⟨[], item, rest, rfl, List.forall_mem_nil _, hitem⟩

/-! ## Tags -/

theorem items?_eq_some_iff {v : Value} {items : List Value} :
    items? v = some items ↔ v.node = .array items := by
  unfold items?
  split <;> simp_all

theorem kind?_eq_some_iff {t : Text} {kind : BinaryKind} : kind? t = some kind ↔ t = kind.name := by
  constructor
  · intro h
    unfold kind? at h
    split at h
    · next ht =>
      obtain rfl := Option.some.inj h
      exact ht
    · split at h
      · next ht =>
        obtain rfl := Option.some.inj h
        exact ht
      · cases h
  · rintro rfl
    cases kind <;> rfl

/-- The tag names the kind, which is the one expected if there is one, and there is an array of items. -/
structure Tagged (v : Value) (expected : Option Value) (kind : BinaryKind) (items : List Value) : Prop where
  tag : ∃ tag, v.Holds (text "json_class") tag ∧ tag.text? = some kind.name
  expected : ∀ x ∈ expected, x.text? = some kind.name
  raw : ∃ raw, v.Holds (text "raw") raw ∧ raw.node = .array items

section

variable {v : Value} {expected : Option Value} (s : Session)

/-- A tag that names no kind is told with its form. -/
theorem unwrap_of_unknownTag {tag : Value} (h : v.Holds (text "json_class") tag)
    (hkind : ∀ kind : BinaryKind, tag.text? ≠ some kind.name) :
    unwrap v expected s = (.error (quoting s.describe tag .rawUnknownTag), s) := by
  obtain ⟨es, hes⟩ := h.entries?
  rw [Value.holds_iff hes] at h
  have hnamed : tag.text?.bind kind? = none := by
    refine Option.eq_none_iff_forall_not_mem.mpr fun kind hmem => ?_
    obtain ⟨t, ht, hname⟩ := Option.bind_eq_some_iff.mp hmem
    exact hkind kind (ht.trans (congrArg some (kind?_eq_some_iff.mp hname)))
  simp only [unwrap, hes, h, Option.getD_some, hnamed]
  exact literal_quoting _ _ s

section

variable {tag : Value} {kind : BinaryKind} (htag : v.Holds (text "json_class") tag)
  (hkind : tag.text? = some kind.name)

include hkind

theorem bind_kind? : tag.text?.bind kind? = some kind := by
  rw [hkind, Option.bind_some, kind?_eq_some_iff]

include htag

/-- A kind that is not the one expected can be told, where this is a text. -/
theorem unwrap_of_otherTag {x : Value} (hx : x.text? ≠ some kind.name) :
    ∃ f, unwrap v (some x) s = (.error f, s) ∧
      ((∃ t, x.text? = some t) → ∃ cause, f = .encoding cause) := by
  obtain ⟨es, hes⟩ := htag.entries?
  rw [Value.holds_iff hes] at htag
  rw [← hkind] at hx
  obtain ⟨t, ht⟩ := Option.isSome_iff_exists.mp
    (Value.literalIn_isSome_of_text? s.describe [] tag [] hkind)
  have hunwrap : unwrap v (some x) s = (Action.literal x >>= fun e => Action.literal tag >>= fun t =>
      Action.fail (.encoding (.rawOtherTag e t))) s := by
    simp only [unwrap, hes, htag, Option.getD_some, bind_kind? hkind, if_pos hx]
    rfl
  rw [hunwrap, Action.bind_apply, Action.literal_apply]
  cases hform : x.literal? s.describe with
  | none =>
    refine ⟨.value .tooManyDigits, rfl, fun htext => ?_⟩
    obtain ⟨u, hu⟩ := htext
    have hsome := Value.literalIn_isSome_of_text? s.describe [] x [] hu
    rw [← Value.literal?, hform] at hsome
    cases hsome
  | some e =>
    refine ⟨.encoding (.rawOtherTag e t), ?_, fun _ => ⟨_, rfl⟩⟩
    simp only [Option.elim_some, Action.resume_ok]
    rw [literal_quoting, quoting, Value.literal?, ht]

variable (hexpected : ∀ x ∈ expected, x.text? = some kind.name)

include hexpected

/-- With the right tag it depends on what stands under the name for the numbers. -/
theorem unwrap_of_tag : unwrap v expected s =
    (match items? ((v.entries?.bind (·.last? (text "raw"))).getD .null) with
    | some items => do return .binary kind (← bytes 0 items)
    | none => Action.fail (.encoding .rawNotArray) : Action Value) s := by
  obtain ⟨es, hes⟩ := htag.entries?
  rw [Value.holds_iff hes] at htag
  rw [hes, Option.bind_some]
  cases expected with
  | none =>
    simp only [unwrap, hes, htag, Option.getD_some, bind_kind? hkind]
    cases items? _ <;> rfl
  | some x =>
    have hsame : ¬ x.text? ≠ tag.text? := by rw [hexpected x rfl, hkind, not_not]
    simp only [unwrap, hes, htag, Option.getD_some, bind_kind? hkind, if_neg hsame]
    cases items? _ <;> rfl

theorem unwrap_of_notArray
    (hraw : ∀ raw, v.Holds (text "raw") raw → ∀ items, raw.node ≠ .array items) :
    unwrap v expected s = (.error (.encoding .rawNotArray), s) := by
  obtain ⟨es, hes⟩ := htag.entries?
  have hitems : items? ((es.last? (text "raw")).getD .null) = none := by
    cases hlast : es.last? (text "raw") with
    | none => rfl
    | some raw =>
      refine Option.eq_none_iff_forall_not_mem.mpr fun items hitems => ?_
      exact hraw raw ((Value.holds_iff hes).mpr hlast) items (items?_eq_some_iff.mp hitems)
  rw [unwrap_of_tag s htag hkind hexpected, hes, Option.bind_some, hitems]
  rfl

end

/-- The bytes of a tagged object are those that its elements are. -/
theorem unwrap_of_tagged {kind : BinaryKind} {items : List Value} (h : Tagged v expected kind items) :
    unwrap v expected s =
      Action.resume (bytes 0 items s) fun data s => (.ok (.binary kind data), s) := by
  obtain ⟨⟨tag, htag, hkind⟩, hexpected, raw, hraw, hitems⟩ := h
  obtain ⟨es, hes⟩ := hraw.entries?
  rw [Value.holds_iff hes] at hraw
  rw [unwrap_of_tag s htag hkind hexpected, hes, Option.bind_some, hraw, Option.getD_some,
    items?_eq_some_iff.mpr hitems]
  exact Action.bind_apply _ _ s

/-- What is wrong apart from the elements, where the tag is not at fault, can be told. -/
theorem unwrap_of_not_tagged (h : ∀ kind items, ¬ Tagged v expected kind items)
    (hnamed : ∀ tag, v.Holds (text "json_class") tag →
      ∃ kind : BinaryKind, tag.text? = some kind.name) :
    ∃ f, unwrap v expected s = (.error f, s) ∧
      ((∀ x ∈ expected, ∃ t, x.text? = some t) → ∃ cause, f = .encoding cause) := by
  cases hes : v.entries? with
  | none => exact ⟨_, by simp only [unwrap, hes]; rfl, fun _ => ⟨_, rfl⟩⟩
  | some es =>
    cases hlast : es.last? (text "json_class") with
    | none => exact ⟨_, by simp only [unwrap, hes, hlast]; rfl, fun _ => ⟨_, rfl⟩⟩
    | some tag =>
      have htag := (Value.holds_iff hes).mpr hlast
      obtain ⟨kind, hkind⟩ := hnamed tag htag
      by_cases hexpected : ∀ x ∈ expected, x.text? = some kind.name
      · have hraw : ∀ raw, v.Holds (text "raw") raw → ∀ items, raw.node ≠ .array items :=
          fun raw hraw items hitems => h kind items ⟨⟨tag, htag, hkind⟩, hexpected, raw, hraw, hitems⟩
        exact ⟨_, unwrap_of_notArray s htag hkind hexpected hraw, fun _ => ⟨_, rfl⟩⟩
      · obtain ⟨x, rfl, hx⟩ : ∃ x, expected = some x ∧ x.text? ≠ some kind.name := by
          simpa using hexpected
        obtain ⟨f, hf, hcause⟩ := unwrap_of_otherTag s htag hkind hx
        exact ⟨f, hf, fun htexts => hcause (htexts x rfl)⟩

/-- The value that is to be quoted in the refusal of an object: a tag that names no kind, or the first
element that is no byte. -/
inductive Quotes (v : Value) (expected : Option Value) : Value → Prop
  | tag {tag : Value} (h : v.Holds (text "json_class") tag)
    (hkind : ∀ kind : BinaryKind, tag.text? ≠ some kind.name) : Quotes v expected tag
  | element {kind : BinaryKind} {before : List Value} {item : Value} {after : List Value}
    (h : Tagged v expected kind (before ++ item :: after)) (hbefore : ∀ u ∈ before, IsByte u)
    (hitem : ¬ IsByte item) : Quotes v expected item

theorem unwrap_of_element {kind : BinaryKind} {before : List Value} {item : Value} {after : List Value}
    (h : Tagged v expected kind (before ++ item :: after)) (hbefore : ∀ u ∈ before, IsByte u)
    (hitem : ¬ IsByte item) :
    unwrap v expected s = (.error (refusal s.describe before.length item), s) := by
  rw [unwrap_of_tagged s h, bytes_of_first hbefore hitem, Action.resume_error, Nat.zero_add]

theorem unwrap_of_areBytes {kind : BinaryKind} {items : List Value} {data : List UInt8}
    (h : Tagged v expected kind items) (hdata : AreBytes items data) :
    unwrap v expected s = (.ok (.binary kind data), s) := by
  rw [unwrap_of_tagged s h, bytes_of_areBytes hdata, Action.resume_ok]

theorem unwrap_of_quotes {w : Value} (h : Quotes v expected w) :
    ∃ cause, unwrap v expected s = (.error (quoting s.describe w cause), s) := by
  cases h with
  | tag h hkind => exact ⟨_, unwrap_of_unknownTag s h hkind⟩
  | element h hbefore hitem => exact ⟨_, unwrap_of_element s h hbefore hitem⟩

/-- An object is right, or one of its values is to be quoted, or what is wrong can be told. -/
theorem unwrap_cases (v : Value) (expected : Option Value) (s : Session) :
    (∃ kind items data, Tagged v expected kind items ∧ AreBytes items data) ∨
      (∃ w, Quotes v expected w) ∨ ∃ f, unwrap v expected s = (.error f, s) ∧
        ((∀ x ∈ expected, ∃ t, x.text? = some t) → ∃ cause, f = .encoding cause) := by
  by_cases htagged : ∃ kind items, Tagged v expected kind items
  · obtain ⟨kind, items, h⟩ := htagged
    obtain ⟨data, hdata⟩ | ⟨before, item, after, rfl, hbefore, hitem⟩ := areBytes_or_first items
    · exact .inl ⟨kind, items, data, h, hdata⟩
    · exact .inr (.inl ⟨item, .element h hbefore hitem⟩)
  · by_cases hunknown : ∃ tag, v.Holds (text "json_class") tag ∧
        ∀ kind : BinaryKind, tag.text? ≠ some kind.name
    · obtain ⟨tag, htag, hkind⟩ := hunknown
      exact .inr (.inl ⟨tag, .tag htag hkind⟩)
    · refine .inr (.inr (unwrap_of_not_tagged s (fun kind items h => htagged ⟨kind, items, h⟩)
        fun tag htag => ?_))
      by_contra hkind
      exact hunknown ⟨tag, htag, fun kind h => hkind ⟨kind, h⟩⟩

end

/-! ## What comes of an object -/

theorem areBytes_numbers (data : List UInt8) : AreBytes (data.map fun b => .int b.toNat) data := by
  rw [AreBytes, List.map_map]
  rfl

/-- The object that carries bytes is tagged with their kind. -/
theorem tagged_rawEntries (kind : BinaryKind) (data : List UInt8) {expected : Option Value}
    (hexpected : ∀ x ∈ expected, x.text? = some kind.name) :
    Tagged (.dictionary (Value.rawEntries kind data)) expected kind (data.map fun b => .int b.toNat) := by
  have hname : (Value.binary kind data).kind = kind.name := by cases kind <;> rfl
  refine ⟨⟨_, ⟨[], _, [_], rfl, rfl, ?_⟩, congrArg some hname⟩, hexpected, _,
    ⟨[_], _, [], rfl, rfl, List.forall_mem_nil _⟩, rfl⟩
  exact List.forall_mem_singleton.mpr (by decide : (some (text "raw")) ≠ some (text "json_class"))

theorem quoting_cases (describe : List Nat → Nat → Option Text) (w : Value)
    (cause : Text → EncodingFault) :
    (∃ c, quoting describe w cause = .encoding c) ∨
      quoting describe w cause = .value .tooManyDigits ∧ w.literal? describe = none := by
  unfold quoting
  cases w.literal? describe with
  | none => exact .inr ⟨rfl, rfl⟩
  | some t => exact .inl ⟨_, rfl⟩

/-- Of any value bytes are made, or it is told why not, where a kind may be expected by its name. The only
other fault is that of too many digits, and it comes exactly if the value to be quoted has no form for
messages. The session stays as it is. -/
theorem unwrap_outcome (v : Value) {expected : Option Value}
    (hexpected : ∀ x ∈ expected, ∃ t, x.text? = some t) (s : Session) :
    ∃ r, unwrap v expected s = (r, s) ∧
      ((∃ kind data, r = .ok (.binary kind data)) ∨ (∃ cause, r = .error (.encoding cause)) ∨
        r = .error (.value .tooManyDigits)) ∧
      (r = .error (.value .tooManyDigits) ↔
        ∃ w, Quotes v expected w ∧ w.literal? s.describe = none) := by
  have hback {w : Value} (hw : Quotes v expected w) (hnone : w.literal? s.describe = none) :
      unwrap v expected s = (.error (.value .tooManyDigits), s) := by
    obtain ⟨cause, h⟩ := unwrap_of_quotes s hw
    rw [h, quoting, hnone]
  -- What is told is not the other fault, so no value is to be quoted that has no form.
  have htold {c : EncodingFault} (h : unwrap v expected s = (.error (.encoding c), s)) :
      ∀ w, Quotes v expected w → w.literal? s.describe ≠ none :=
    fun w hw hnone => by cases h.symm.trans (hback hw hnone)
  obtain ⟨kind, items, data, h, hdata⟩ | ⟨w, hw⟩ | ⟨f, hf, hcause⟩ := unwrap_cases v expected s
  · have hok := unwrap_of_areBytes s h hdata
    refine ⟨_, hok, .inl ⟨kind, data, rfl⟩, nofun, fun ⟨w, hw, hnone⟩ => ?_⟩
    cases hok.symm.trans (hback hw hnone)
  · obtain ⟨cause, hquoted⟩ := unwrap_of_quotes s hw
    obtain ⟨c, hc⟩ | ⟨hdigits, hnone⟩ := quoting_cases s.describe w cause
    · rw [hc] at hquoted
      exact ⟨_, hquoted, .inr (.inl ⟨c, rfl⟩), nofun,
        fun ⟨u, hu, hnone⟩ => absurd hnone (htold hquoted u hu)⟩
    · rw [hdigits] at hquoted
      exact ⟨_, hquoted, .inr (.inr rfl), fun _ => ⟨w, hw, hnone⟩, fun _ => rfl⟩
  · obtain ⟨c, rfl⟩ := hcause hexpected
    exact ⟨_, hf, .inr (.inl ⟨c, rfl⟩), nofun, fun ⟨u, hu, hnone⟩ => absurd hnone (htold hf u hu)⟩

/-- A number of too many digits. -/
def longNumber : Value := .int (Decimal.tenTo Decimal.digitLimit : Nat)

/-- A tag that is a number of too many digits, and an empty array. -/
def longTag : Value := .dictionary [(.str (text "json_class"), longNumber), (.str (text "raw"), .list [])]

/-- It names no kind, but this is not told. -/
theorem unwrap_longTag :
    longTag.Holds (text "json_class") longNumber ∧ longNumber.text? = none ∧
      (unwrap longTag none (.initial true)).1 = .error (.value .tooManyDigits) := by
  have htag : longTag.Holds (text "json_class") longNumber :=
    ⟨[], _, [(.str (text "raw"), .list [])], rfl, rfl, by decide⟩
  have hnone : longNumber.literal? (Session.initial true).describe = none := by decide +kernel
  refine ⟨htag, rfl, ?_⟩
  rw [unwrap_of_unknownTag _ htag nofun, quoting, hnone]

/-- A name that comes twice, a tag of a derived type, and in the tuple a list with such a number. -/
def spelledSample : Value :=
  .mapping .pairs [(.str (text "raw"), .null), (.str (text "json_class"), .derived (.str (text "bytearray"))),
    (.str (text "raw"), .sequence .tuple [.int 0xFF, .list [.str (text "1"), longNumber], .int 256])]

theorem unwrap_spelledSample :
    (∀ x ∈ some (Value.str (text "bytearray")), ∃ t, x.text? = some t) ∧
      (unwrap spelledSample (some (.str (text "bytearray"))) (.initial true)).1 =
        .error (.value .tooManyDigits) := by
  have hexpected : ∀ x ∈ some (Value.str (text "bytearray")), ∃ t, x.text? = some t := by
    intro x hx
    obtain rfl := Option.some.inj hx
    exact ⟨_, rfl⟩
  refine ⟨hexpected, ?_⟩
  have htagged : Tagged spelledSample (some (.str (text "bytearray"))) .byteArray
      ([.int 0xFF] ++ .list [.str (text "1"), longNumber] :: [.int 256]) := by
    refine ⟨⟨_, ⟨[_], _, [_], rfl, rfl, by decide⟩, rfl⟩, fun x hx => ?_, _,
      ⟨[_, _], _, [], rfl, rfl, List.forall_mem_nil _⟩, rfl⟩
    obtain rfl := Option.some.inj hx
    rfl
  obtain ⟨r, hr, -, hdigits⟩ := unwrap_outcome spelledSample hexpected (.initial true)
  rw [hr]
  refine hdigits.mpr ⟨.list [.str (text "1"), longNumber], .element htagged ?_ ?_, ?_⟩
  · exact List.forall_mem_singleton.mpr ⟨0xFF, rfl, by decide, by decide⟩
  · rintro ⟨n, hn, -⟩
    cases hn
  · decide +kernel

/-- What is made of an object are the bytes that its elements are, of the kind that its tag names and that
is expected, if all this is right, and nothing otherwise. These are carried by a tagged object with the
same tag and numbers, and all bytes are made again of the object that carries them. With the right tag
and array, the fault names the first element that is no byte, if that has a form for messages. -/
theorem unwrap_inverts (v : Value) (expected : Option Value) (s : Session) :
    (∀ w, (unwrap v expected s).1 = .ok w ↔ ∃ kind items data, Tagged v expected kind items ∧
      AreBytes items data ∧ w = .binary kind data) ∧
    (∀ kind items data, Tagged v expected kind items → AreBytes items data →
      ∃ u items', wrap (.binary kind data) = .ok u ∧ Tagged u expected kind items' ∧
        AreBytes items' data) ∧
    (∀ d kind data, d.content = .binary kind data →
      ∃ u, wrap d = .ok u ∧ unwrap u none s = (.ok (.binary kind data), s)) ∧
    ∀ kind before item after, Tagged v expected kind (before ++ item :: after) →
      (∀ u ∈ before, IsByte u) → ¬ IsByte item →
        unwrap v expected s = (.error (refusal s.describe before.length item), s) := by
  refine ⟨fun w => ⟨fun hw => ?_, ?_⟩, fun kind items data h hdata => ?_, fun d kind data hd =>
    ⟨_, wrap_of_binary hd, unwrap_rawEntries kind data s⟩, fun kind before item after =>
      unwrap_of_element s⟩
  · obtain ⟨kind, items, data, h, hdata⟩ | ⟨u, hu⟩ | ⟨f, hf, -⟩ := unwrap_cases v expected s
    · rw [unwrap_of_areBytes s h hdata] at hw
      exact ⟨kind, items, data, h, hdata, (Except.ok.inj hw).symm⟩
    · obtain ⟨cause, hquoted⟩ := unwrap_of_quotes s hu
      rw [hquoted] at hw
      cases hw
    · rw [hf] at hw
      cases hw
  · rintro ⟨kind, items, data, h, hdata, rfl⟩
    rw [unwrap_of_areBytes s h hdata]
  · exact ⟨_, _, rfl, tagged_rawEntries kind data h.expected, areBytes_numbers data⟩

/-- A tuple of numbers, one of a derived type, under a name that comes twice. -/
def twiceSample : Value :=
  .mapping .pairs [(.str (text "raw"), .list [.bool true]),
    (.str (text "json_class"), .str (text "bytearray")), (.int 1, .null),
    (.str (text "raw"), .sequence .tuple [.int 0, .derived (.int 255)])]

theorem unwrap_twiceSample :
    (unwrap twiceSample (some (.str (text "bytearray"))) (.initial true)).1 =
      .ok (.binary .byteArray [0, 0xFF]) := by
  have htagged : Tagged twiceSample (some (.str (text "bytearray"))) .byteArray
      [.int 0, .derived (.int 255)] := by
    refine ⟨⟨_, ⟨[_], _, [_, _], rfl, rfl, by decide⟩, rfl⟩, fun x hx => ?_, _,
      ⟨[_, _, _], _, [], rfl, rfl, List.forall_mem_nil _⟩, rfl⟩
    obtain rfl := Option.some.inj hx
    rfl
  exact ((unwrap_inverts twiceSample _ (.initial true)).1 _).mpr ⟨_, _, [0, 0xFF], htagged, rfl, rfl⟩

/-- A byte, and a number of too many digits. -/
def longElement : Value :=
  .dictionary [(.str (text "json_class"), .str (text "bytes")),
    (.str (text "raw"), .list [.int 0, longNumber])]

/-- The first element that is no byte is that number, but the fault does not say which one it is. -/
theorem unwrap_longElement :
    Tagged longElement none .bytes [.int 0, longNumber] ∧ IsByte (.int 0) ∧ ¬ IsByte longNumber ∧
      (∀ t, (unwrap longElement none (.initial true)).1 ≠ .error (.encoding (.rawOutOfRange 1 t))) ∧
      (unwrap longElement none (.initial true)).1 = .error (.value .tooManyDigits) := by
  have htagged : Tagged longElement none .bytes ([.int 0] ++ longNumber :: []) :=
    ⟨⟨_, ⟨[], _, [_], rfl, rfl, by decide⟩, rfl⟩, nofun, _,
      ⟨[_], _, [], rfl, rfl, List.forall_mem_nil _⟩, rfl⟩
  have hbyte : IsByte (.int 0) := ⟨0, rfl, by decide, by decide⟩
  have hlong : ¬ IsByte longNumber := by
    rintro ⟨n, hn, -, hlt⟩
    obtain rfl := Option.some.inj hn
    revert hlt
    decide +kernel
  have hnone : longNumber.literal? (Session.initial true).describe = none := by decide +kernel
  have hfault : (unwrap longElement none (.initial true)).1 = .error (.value .tooManyDigits) := by
    rw [unwrap_of_element _ htagged (List.forall_mem_singleton.mpr hbyte) hlong, refusal, quoting, hnone]
  refine ⟨htagged, hbyte, hlong, fun t ht => ?_, hfault⟩
  cases hfault.symm.trans ht

end RawObject

end JsonWriter
