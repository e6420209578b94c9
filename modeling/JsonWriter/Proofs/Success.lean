import JsonWriter.Proofs.Failure
import JsonWriter.Proofs.Output

/-!
# When a value is written

A value without objects that write themselves is written exactly if each node in it can be written at
the depth where it stands: texts have a UTF-8 form, whole numbers are short enough, floating numbers are
finite or allowed, keys have texts, and containers are within the limit on nesting and can be indented.
Main statement: `generate_succeeds`.
-/

namespace JsonWriter

open Generator (Format)

namespace Value

/-! ## The nodes of a value -/

/-- A value stands in another one, inside so many containers. Bytes are taken for their tagged
object. -/
inductive Nested : Value → Nat → Value → Prop
  | self (v : Value) : Nested v 0 v
  | item {v : Value} {items : List Value} {w u : Value} {k : Nat} (hv : v.node = .array items)
    (hw : w ∈ items) (hu : Nested w k u) : Nested v (k + 1) u
  | entry {v : Value} {entries : List (Value × Value)} {e : Value × Value} {u : Value} {k : Nat}
    (hv : v.node = .object entries) (he : e ∈ entries) (hu : Nested e.2 k u) : Nested v (k + 1) u

section

variable {v : Value} {P : Nat → Value → Prop}

theorem forall_nested_of_scalar (h : Render.container? v = none) :
    (∀ k w, v.Nested k w → P k w) ↔ P 0 v := by
  refine ⟨fun hP => hP 0 v (.self v), fun hP k w hw => ?_⟩
  cases hw with
  | self => exact hP
  | item hv _ _ | entry hv _ _ => simp [Render.container?, hv] at h

theorem forall_nested_of_array {items : List Value} (h : v.node = .array items) :
    (∀ k w, v.Nested k w → P k w) ↔ P 0 v ∧ ∀ u ∈ items, ∀ k w, u.Nested k w → P (k + 1) w := by
  refine ⟨fun hP => ⟨hP 0 v (.self v), fun u hu k w hw => hP _ _ (.item h hu hw)⟩, ?_⟩
  rintro ⟨hself, hP⟩ k w hw
  cases hw with
  | self => exact hself
  | item hv hu hw =>
    obtain rfl : items = _ := by simpa [h] using hv
    exact hP _ hu _ _ hw
  | entry hv _ _ => simp [h] at hv

theorem forall_nested_of_object {entries : List (Value × Value)} (h : v.node = .object entries) :
    (∀ k w, v.Nested k w → P k w) ↔
      P 0 v ∧ ∀ e ∈ entries, ∀ k w, e.2.Nested k w → P (k + 1) w := by
  refine ⟨fun hP => ⟨hP 0 v (.self v), fun e he k w hw => hP _ _ (.entry h he hw)⟩, ?_⟩
  rintro ⟨hself, hP⟩ k w hw
  cases hw with
  | self => exact hself
  | item hv _ _ => simp [h] at hv
  | entry hv he hw =>
    obtain rfl : entries = _ := by simpa [h] using hv
    exact hP _ he _ _ hw

end

/-! ## Keys -/

/-- A whole number stands in the text of a key: in the key itself or in tuples, where a derived one shows
something else and a tuple inside itself is not shown again. -/
inductive Shows : List Nat → Value → Int → Prop
  | int (entered : List Nat) (n : Int) : Shows entered (int n) n
  | item {entered : List Nat} {items : List Value} {w : Value} {n : Int} (hw : w ∈ items)
    (h : Shows entered w n) : Shows entered (sequence .tuple items) n
  | own {entered : List Nat} {i : Nat} {v : Value} {n : Int} (hi : i ∉ entered)
    (h : Shows (i :: entered) v n) : Shows entered (own i v) n

theorem Shows.text? {entered : List Nat} {v : Value} {n : Int} (h : v.Shows entered n) :
    v.text? = none := by
  induction h with
  | own _ _ ih => exact ih
  | _ => rfl

theorem ofInt?_isSome (n : Int) : (Decimal.ofInt? n).isSome ↔ Decimal.IsShort n := by
  rw [Decimal.ofInt?, Decimal.IsShort]
  split <;> simp_all

/-- A key has a form for messages exactly if the whole numbers in it are short. -/
theorem literalIn_isSome {key : Value} (hkey : key.IsKey fun _ => True)
    (describe : List Nat → Nat → Option Text) (entered : List Nat) (bound : List Text) :
    (key.literalIn describe entered bound).isSome ↔
      ∀ n, key.Shows entered n → Decimal.IsShort n := by
  induction hkey generalizing entered with
  | @int n _ =>
    rw [literalIn, ofInt?_isSome]
    refine ⟨fun h m hm => ?_, fun h => h n (.int entered n)⟩
    cases hm with
    | int => exact h
  | @tuple items _ ih =>
    have hitems : (literalItems describe entered bound items).isSome ↔
        ∀ w ∈ items, ∀ n, w.Shows entered n → Decimal.IsShort n := by
      rw [literalItems_isSome]
      exact forall₂_congr fun w hw => ih w hw entered
    rw [literalIn, Option.isSome_map, hitems]
    refine ⟨fun h n hn => ?_, fun h w hw n hn => h n (.item hw hn)⟩
    cases hn with
    | item hw hn => exact h _ hw n hn
  | @own i v _ ih =>
    rw [literalIn]
    by_cases hi : i ∈ entered
    · rw [if_pos hi]
      refine iff_of_true rfl fun n hn => ?_
      cases hn with
      | own hnot _ => exact absurd hi hnot
    · rw [if_neg hi, ih]
      refine ⟨fun h n hn => ?_, fun h n hn => h n (.own hi hn)⟩
      cases hn with
      | own _ hn => exact h n hn
  | _ =>
    refine iff_of_true rfl fun n hn => ?_
    cases hn

/-- What stands for a key is the form for messages, unless the key is a text, a truth value or null. -/
theorem keyText?_of_isKey {whole : Int → Prop} {key : Value} (hkey : key.IsKey whole)
    (describe : List Nat → Nat → Option Text) :
    (key.text?.isSome ∨ key = null ∨ ∃ b, key = bool b) ∨
      key.keyText? describe = key.literal? describe := by
  cases hkey with
  | null => exact .inl (.inr (.inl rfl))
  | bool b => exact .inl (.inr (.inr ⟨b, rfl⟩))
  | str _ | setting _ => exact .inl (.inl rfl)
  | int _ | float _ | bytes _ | tuple _ => exact .inr rfl
  | @derived base h =>
    cases htext : (Value.derived base).text? with
    | some t => exact .inl (.inl rfl)
    | none => exact .inr (by simp only [keyText?, htext]; rfl)
  | @own i v h =>
    cases htext : (Value.own i v).text? with
    | some t => exact .inl (.inl rfl)
    | none =>
      refine .inr ?_
      simp only [keyText?, htext]
      cases h <;> rfl

/-- A key has a text exactly if the whole numbers in it are short. -/
theorem keyText?_isSome {key : Value} (hkey : key.IsKey fun _ => True)
    (describe : List Nat → Nat → Option Text) :
    (key.keyText? describe).isSome ↔ ∀ n, key.Shows [] n → Decimal.IsShort n := by
  obtain (htext | rfl | ⟨b, rfl⟩) | hliteral := keyText?_of_isKey hkey describe
  · obtain ⟨t, ht⟩ := Option.isSome_iff_exists.mp htext
    refine iff_of_true (by simp only [keyText?, ht]; rfl) fun n hn => ?_
    rw [hn.text?] at ht
    cases ht
  · refine iff_of_true rfl fun n hn => ?_
    cases hn
  · refine iff_of_true rfl fun n hn => ?_
    cases hn
  · rw [hliteral]
    exact literalIn_isSome hkey describe [] []

end Value

/-! ## What can be written -/

namespace Generator.Format

/-- A node at a depth keeps to the rules for nodes of its kind: texts have a UTF-8 form, also those of
keys and of what only shows itself, numbers can be spelled, and containers are within the limit on nesting
unless that is zero. -/
def Accepts (f : Format) (limit : Int) (describe : List Nat → Nat → Option Text) (depth : Int)
    (v : Value) : Prop :=
  match v.node with
  | .null | .bool _ => True
  | .str t => t.IsScalar
  | .int n => Decimal.IsShort n
  | .float x => x.IsFinite ∨ f.allowNan
  | .array _ => limit = 0 ∨ depth + 1 ≤ limit
  | .object entries => (limit = 0 ∨ depth + 1 ≤ limit) ∧
    ∀ e ∈ entries, ∃ t, e.1.keyText? describe = some t ∧ t.IsScalar
  | .extension _ => False
  | .other => ∃ t, v.shown? describe = some t ∧ t.IsScalar

/-- The lines of a container with so many entries can be indented, if it takes new lines: neither the
number of times that the indentation is repeated nor the length of the whole exceeds a machine word. The
entries are one level further in than the end. -/
def HasRoom (f : Format) (indent : Text) (shape : Render.Shape) (depth : Int) (entries : Nat) : Prop :=
  ∀ newline, shape.newline f = .ok newline → newline = [] ∨ -2 ^ 63 ≤ depth ∧
    (if entries = 0 then depth else depth + 1) * (max 1 indent.length : Nat) < 2 ^ 63

/-- The lines of a node at a depth can be indented. -/
def Indents (f : Format) (indent : Text) (depth : Int) (v : Value) : Prop :=
  match v.node with
  | .array items => f.HasRoom indent .array depth items.length
  | .object entries => f.HasRoom indent .object depth entries.length
  | _ => True

section

variable {f : Format} {limit : Int} {describe : List Nat → Nat → Option Text} {indent : Text} {depth : Int}
  {v : Value}

theorem accepts_of_array {items : List Value} (h : v.node = .array items) :
    f.Accepts limit describe depth v ↔ limit = 0 ∨ depth + 1 ≤ limit := by
  rw [Accepts, h]

theorem accepts_of_object {entries : List (Value × Value)} (h : v.node = .object entries) :
    f.Accepts limit describe depth v ↔ (limit = 0 ∨ depth + 1 ≤ limit) ∧
      ∀ e ∈ entries, ∃ t, e.1.keyText? describe = some t ∧ t.IsScalar := by
  rw [Accepts, h]

theorem indents_of_array {items : List Value} (h : v.node = .array items) :
    f.Indents indent depth v ↔ f.HasRoom indent .array depth items.length := by
  rw [Indents, h]

theorem indents_of_object {entries : List (Value × Value)} (h : v.node = .object entries) :
    f.Indents indent depth v ↔ f.HasRoom indent .object depth entries.length := by
  rw [Indents, h]

end

end Generator.Format

/-- There is no fault. -/
def Succeeds {α : Type} (r : Except Fault α) : Prop := ∃ a, r = .ok a

theorem not_succeeds {α : Type} (e : Fault) : ¬ Succeeds (.error e : Except Fault α) := by
  rintro ⟨a, h⟩
  cases h

theorem succeeds_map {α β : Type} {r : Except Fault α} {g : α → β} : Succeeds (r.map g) ↔ Succeeds r := by
  simp [Succeeds, map_eq_ok]

namespace Render

/-! ## Tokens and keys -/

theorem quoted_succeeds (asciiOnly : Bool) (t shown : Text) (s : Session) :
    Succeeds (quoted asciiOnly t shown s).1 ↔ t.IsScalar := by
  rw [quoted_eq]
  split
  · next ht => exact iff_of_true ⟨_, rfl⟩ ht
  · next ht => exact iff_of_false (not_succeeds _) ht

theorem bind_quoted_succeeds {x : Action Text} {s : Session} {u : Option Text}
    (hx : ∀ t, (x s).1 = .ok t ↔ u = some t) (asciiOnly : Bool) (v : Value) :
    Succeeds ((x >>= fun t => quoted asciiOnly t (shownText v t)) s).1 ↔
      ∃ t, u = some t ∧ t.IsScalar := by
  rw [Action.bind_apply]
  generalize x s = run at hx
  obtain ⟨e | name, s'⟩ := run
  · refine iff_of_false (not_succeeds e) ?_
    rintro ⟨t, ht, -⟩
    cases (hx t).mpr ht
  · rw [Action.resume_ok, quoted_succeeds]
    refine ⟨fun h => ⟨name, (hx name).mp rfl, h⟩, ?_⟩
    rintro ⟨t, ht, h⟩
    exact Except.ok.inj ((hx t).mpr ht) ▸ h

theorem label_succeeds (f : Format) (key : Value) (s : Session) :
    Succeeds (label f key s).1 ↔ ∃ t, key.keyText? s.describe = some t ∧ t.IsScalar :=
  bind_quoted_succeeds (fun _ => keyText_eq_ok) f.asciiOnly key

section

variable {f : Format} {limit : Int} {s : Session}

/-- A scalar is written exactly if it keeps to the rules. -/
theorem leaf_succeeds {v : Value} (hv : v.IsNative) (hscalar : container? v = none) (extend : Extender)
    (depth : Value) (d : Int) :
    Succeeds (leaf extend f v depth s).1 ↔ f.Accepts limit s.describe d v := by
  cases hnode : v.node with
  | null | bool b =>
    simp only [leaf, Format.Accepts, hnode]
    exact iff_of_true ⟨_, rfl⟩ trivial
  | str t =>
    simp only [leaf, Format.Accepts, hnode]
    exact quoted_succeeds _ _ _ _
  | int n =>
    simp only [leaf, Format.Accepts, hnode]
    rw [← Value.ofInt?_isSome]
    unfold number
    generalize Decimal.ofInt? n = digits
    cases digits with
    | none => exact iff_of_false (not_succeeds _) Bool.false_ne_true
    | some t => exact iff_of_true ⟨t, rfl⟩ rfl
  | float x =>
    simp only [leaf, Format.Accepts, hnode, float]
    by_cases hx : x.IsFinite
    · rw [if_pos hx]
      exact iff_of_true ⟨_, rfl⟩ (.inl hx)
    · rw [if_neg hx]
      by_cases hallow : f.allowNan
      · simp only [if_pos hallow]
        exact iff_of_true ⟨_, rfl⟩ (.inr hallow)
      · simp only [if_neg hallow]
        exact iff_of_false (not_succeeds _) (not_or.mpr ⟨hx, hallow⟩)
  | array _ | object _ => simp [container?, hnode] at hscalar
  | extension e => exact (Value.allowed_of_node v hv hnode).elim
  | other =>
    simp only [leaf, Format.Accepts, hnode]
    exact bind_quoted_succeeds (fun _ => shown_eq_ok) f.asciiOnly v

/-! ## Layout -/

/-- A text can be repeated so often exactly if the number of times and the length of the whole fit a
machine word. A negative number of times is none. -/
theorem repeats_succeeds {α : Type} (n : Int) (length : Nat) (fault : OverflowFault)
    (g : Nat → Unit → α) :
    Succeeds ((Value.repetitions n).bind fun k => (Value.checkLength fault length k).map (g k)) ↔
      -2 ^ 63 ≤ n ∧ n * (max 1 length : Nat) < 2 ^ 63 := by
  obtain hneg | hpos := Int.lt_or_le n 0
  · have hnone : n * (max 1 length : Nat) ≤ 0 :=
      Int.mul_nonpos_of_nonpos_of_nonneg (Int.le_of_lt hneg) (by omega)
    have hzero : n.toNat = 0 := by omega
    unfold Value.repetitions
    split
    · exact iff_of_false (not_succeeds _) (by omega)
    · simp only [Except.bind, succeeds_map, Value.checkLength, hzero, Nat.mul_zero]
      exact iff_of_true ⟨_, rfl⟩ (by omega)
  · have hlength : ((length * n.toNat : Nat) : Int) = n * length := by
      rw [Nat.cast_mul, Int.toNat_of_nonneg hpos, Int.mul_comm]
    have htimes : n * (1 : Nat) ≤ n * (max 1 length : Nat) :=
      Int.mul_le_mul_of_nonneg_left (by omega) hpos
    have hwide : n * length ≤ n * (max 1 length : Nat) :=
      Int.mul_le_mul_of_nonneg_left (by omega) hpos
    unfold Value.repetitions
    split
    · exact iff_of_false (not_succeeds _) (by omega)
    · simp only [Except.bind, succeeds_map, Value.checkLength]
      -- The longer of the two, the text or one character, decides.
      obtain hmax | hmax : max 1 length = 1 ∨ max 1 length = length := by omega
      all_goals
        rw [hmax] at htimes hwide ⊢
        split
        · exact iff_of_true ⟨_, rfl⟩ (by omega)
        · exact iff_of_false (not_succeeds _) (by omega)

theorem margin_succeeds {indent : Text} (hindent : f.indent.text? = some indent) (n : Int)
    (newline : Text) :
    Succeeds (margin f newline (.whole n)) ↔
      newline = [] ∨ -2 ^ 63 ≤ n ∧ n * (max 1 indent.length : Nat) < 2 ^ 63 := by
  unfold margin
  by_cases hnewline : newline = []
  · rw [if_pos (List.isEmpty_iff.mpr hnewline)]
    exact iff_of_true ⟨_, rfl⟩ (.inl hnewline)
  · rw [if_neg (by simpa using hnewline), succeeds_map]
    simp only [Value.times, Value.number?_of_text? hindent, Value.repeater?_of_text? hindent,
      Number.whole?, hnewline, false_or]
    exact repeats_succeeds n indent.length _ _

/-- Entries are written exactly if each of them is, and there is a margin for the lines that they are
on. -/
theorem fill_succeeds {newline : Text} {depth : Number} {first : Bool}
    {entries : List (Except Fault (List Part))} :
    Succeeds (fill (.outcome f s) f newline depth first entries) ↔
      (entries ≠ [] → Succeeds (margin f newline depth)) ∧ ∀ r ∈ entries, Succeeds r := by
  induction entries generalizing first with
  | nil => exact iff_of_true ⟨_, rfl⟩ ⟨fun h => absurd rfl h, List.forall_mem_nil _⟩
  | cons r rest ih =>
    have hgap : Succeeds (gap f newline depth first) ↔ Succeeds (margin f newline depth) := succeeds_map
    rw [List.forall_mem_cons, ← hgap]
    constructor
    · rintro ⟨parts, h⟩
      obtain ⟨before, entry, more, hbefore, hr, hmore, -⟩ := fill_cons_eq_ok.mp h
      exact ⟨fun _ => ⟨before, hbefore⟩, ⟨entry, hr⟩, (ih.mp ⟨more, hmore⟩).2⟩
    · rintro ⟨hbefore, ⟨entry, hr⟩, hrest⟩
      obtain ⟨before, hbefore⟩ := hbefore (List.cons_ne_nil _ _)
      obtain ⟨more, hmore⟩ := ih.mpr ⟨fun _ => hgap.mp ⟨before, hbefore⟩, hrest⟩
      exact ⟨_, fill_cons_eq_ok.mpr ⟨before, entry, more, hbefore, hr, hmore, rfl⟩⟩

theorem checkNesting_succeeds {x : Number} (hx : f.maxNesting.number? = some x)
    (hlimit : x.whole? = some limit) {depth : Value} {d : Int} (hd : depth.int? = some d) :
    Generator.checkNesting f.maxNesting depth = .ok () ↔ limit = 0 ∨ d + 1 ≤ limit := by
  rw [checkNesting_eq hx hlimit hd]
  split
  · exact iff_of_false (by rintro ⟨⟩) (by omega)
  · exact iff_of_true rfl (by omega)

/-- The lines of a container can be indented exactly if there is a margin for its end, and one for its
entries if it has any. -/
theorem hasRoom_iff {indent newline : Text} (hindent : f.indent.text? = some indent) {shape : Shape}
    (hnewline : shape.newline f = .ok newline) {d : Int} {α : Type} (entries : List α) :
    f.HasRoom indent shape d entries.length ↔
      (entries ≠ [] → Succeeds (margin f newline (.whole (d + 1)))) ∧
        Succeeds (margin f newline (.whole d)) := by
  have hdeeper : d * (max 1 indent.length : Nat) ≤ (d + 1) * (max 1 indent.length : Nat) :=
    Int.mul_le_mul_of_nonneg_right (by omega) (by omega)
  simp only [Format.HasRoom, hnewline, Except.ok.injEq, forall_eq', List.length_eq_zero_iff,
    margin_succeeds hindent]
  by_cases hempty : entries = []
  · simp [hempty]
  · simp only [ne_eq, hempty, not_false_eq_true, forall_const, ↓reduceIte]
    refine ⟨fun h => ⟨h.imp_right fun h => by omega, h.imp_right fun h => by omega⟩, ?_⟩
    rintro ⟨hinner, houter⟩
    exact hinner.elim .inl fun hinner => houter.imp_right fun houter => ⟨houter.1, hinner.2⟩

/-- A container is written exactly if it is within the limit, its lines can be indented, and its entries are
written. -/
theorem block_succeeds (hf : f.HasLayout fun _ => True) {indent : Text}
    (hindent : f.indent.text? = some indent) {x : Number} (hx : f.maxNesting.number? = some x)
    (hlimit : x.whole? = some limit) (shape : Shape) {depth : Value} {d : Int}
    (hd : depth.int? = some d) {entries : Number → List (Except Fault (List Part))} :
    Succeeds (block (.outcome f s) f shape depth entries) ↔
      (limit = 0 ∨ d + 1 ≤ limit) ∧ f.HasRoom indent shape d (entries (.whole (d + 1))).length ∧
        ∀ r ∈ entries (.whole (d + 1)), Succeeds r := by
  obtain ⟨newline, hnewline, -⟩ := hf.newline shape
  have hending : Succeeds (ending f shape newline (.whole d)) ↔ Succeeds (margin f newline (.whole d)) :=
    succeeds_map
  rw [hasRoom_iff hindent hnewline, ← checkNesting_succeeds hx hlimit hd, ← hending, ← Number.pred_succ d]
  constructor
  · rintro ⟨parts, h⟩
    obtain ⟨hcheck, newline', inner, body, last, hnewline', hsucc, hbody, hlast, -⟩ := block_eq_ok.mp h
    obtain rfl := Except.ok.inj (hnewline.symm.trans hnewline')
    obtain rfl := Except.ok.inj ((Value.succ_of_int? hd).symm.trans hsucc)
    obtain ⟨hmargin, hentries⟩ := fill_succeeds.mp ⟨body, hbody⟩
    exact ⟨hcheck, ⟨hmargin, last, hlast⟩, hentries⟩
  · rintro ⟨hcheck, ⟨hmargin, last, hlast⟩, hentries⟩
    have hfill : Succeeds (fill (.outcome f s) f newline (.whole (d + 1)) true (entries (.whole (d + 1)))) :=
      fill_succeeds.mpr ⟨hmargin, hentries⟩
    obtain ⟨body, hbody⟩ := hfill
    exact ⟨_, block_eq_ok.mpr
      ⟨hcheck, newline, _, body, last, hnewline, Value.succ_of_int? hd, hbody, hlast, rfl⟩⟩

theorem token_succeeds (depth v : Value) :
    Succeeds (token (.outcome f s) depth v) ↔
      Succeeds (leaf (fun _ _ => Action.fail .endless) f v depth s).1 := by
  simp only [Succeeds, Scribe.outcome, token_eq_ok]
  constructor
  · rintro ⟨parts, t, ht, -⟩
    exact ⟨t, ht⟩
  · rintro ⟨t, ht⟩
    exact ⟨_, t, ht, rfl⟩

theorem pair_succeeds (hf : f.HasLayout fun _ => True) (key : Value) (value : Except Fault (List Part)) :
    Succeeds (pair (.outcome f s) f key value) ↔
      (∃ t, key.keyText? s.describe = some t ∧ t.IsScalar) ∧ Succeeds value := by
  rw [← label_succeeds f]
  obtain ⟨before, after, hcolon, -⟩ := hf.colon
  constructor
  · rintro ⟨parts, h⟩
    obtain ⟨label, colon, entry, hlabel, -, hentry, -⟩ := pair_eq_ok.mp h
    exact ⟨⟨label, hlabel⟩, entry, hentry⟩
  · rintro ⟨⟨label, hlabel⟩, entry, hentry⟩
    exact ⟨_, pair_eq_ok.mpr ⟨label, _, entry, hlabel, hcolon, hentry, rfl⟩⟩

/-- A value is laid out exactly if each node in it keeps to the rules and can be indented where it
stands. -/
theorem layOut_succeeds (hf : f.HasLayout fun _ => True) {indent : Text}
    (hindent : f.indent.text? = some indent) {x : Number} (hx : f.maxNesting.number? = some x)
    (hlimit : x.whole? = some limit) {v : Value} (hv : v.IsNative) {depth : Value} {d : Int}
    (hd : depth.int? = some d) :
    Succeeds (layOut (.outcome f s) f depth v) ↔ ∀ k w, v.Nested k w →
      f.Accepts limit s.describe (d + k) w ∧ f.Indents indent (d + k) w := by
  have hinner (d : Int) (k : Nat) : d + (k + 1 : Nat) = d + 1 + k := by omega
  induction v, hv using Value.tree_induction generalizing depth d with
  | scalar v h hscalar =>
    have hleaf : Succeeds (leaf (fun _ _ => Action.fail .endless) f v depth s).1 ↔
        f.Accepts limit s.describe d v := leaf_succeeds h hscalar _ depth d
    have hindents : f.Indents indent d v := by
      unfold Format.Indents
      split <;> simp_all [container?]
    rw [layOut_of_scalar _ _ _ hscalar, Value.forall_nested_of_scalar hscalar, token_succeeds, hleaf]
    simp only [Int.natCast_zero, Int.add_zero, hindents, and_true]
  | sequence v h kind items hcontent ih =>
    have hnode : v.node = .array items := by rw [← Value.node_content, hcontent]; rfl
    rw [layOut_of_sequence _ _ _ hcontent, Value.forall_nested_of_array hnode,
      block_succeeds hf hindent hx hlimit .array hd]
    simp only [Format.accepts_of_array hnode, Format.indents_of_array hnode, hinner, Int.natCast_zero,
      Int.add_zero, List.length_map, List.forall_mem_map, and_assoc]
    refine and_congr_right' (and_congr_right' (forall₂_congr fun w hw => ?_))
    exact (ih w hw).2 rfl
  | mapping v h kind entries hcontent ih =>
    have hnode : v.node = .object entries := by rw [← Value.node_content, hcontent]; rfl
    have hentry (e : Value × Value) (he : e ∈ entries) :
        Succeeds (pair (.outcome f s) f e.1 (layOut (.outcome f s) f (Number.whole (d + 1)).value e.2)) ↔
          (∃ t, e.1.keyText? s.describe = some t ∧ t.IsScalar) ∧ ∀ k w, e.2.Nested k w →
            f.Accepts limit s.describe (d + 1 + k) w ∧ f.Indents indent (d + 1 + k) w := by
      obtain ⟨_, ih⟩ := ih e he
      exact (pair_succeeds hf e.1 _).trans (and_congr_right' (ih rfl))
    rw [layOut_of_mapping _ _ _ hcontent, Value.forall_nested_of_object hnode,
      block_succeeds hf hindent hx hlimit .object hd]
    simp only [Format.accepts_of_object hnode, Format.indents_of_object hnode, hinner, Int.natCast_zero,
      Int.add_zero, List.length_map, List.forall_mem_map, and_assoc]
    rw [forall₂_congr hentry, forall₂_and, and_left_comm (b := ∀ e ∈ entries, ∃ t, _)]
  | binary v h kind data hcontent ih =>
    have hnode : v.node = .object (Value.rawEntries kind data) := by
      rw [← Value.node_content, hcontent]
      rfl
    have hraw : (Value.dictionary (Value.rawEntries kind data)).node =
      .object (Value.rawEntries kind data) := rfl
    rw [layOut_of_binary _ _ _ hcontent]
    refine Iff.trans (ih.2 hd) ?_
    rw [Value.forall_nested_of_object hnode, Value.forall_nested_of_object hraw]
    simp only [Format.accepts_of_object hnode, Format.accepts_of_object hraw,
      Format.indents_of_object hnode, Format.indents_of_object hraw]

end

end Render

/-! ## Generating -/

/-- What is laid out joins, so the layout alone decides whether there is text. -/
theorem generate_succeeds_of_layOut {v : Value} (hv : v.IsNative) {s : Session} {id : Nat} {g : Generator}
    (hg : s.generator? id = some g) (hlayout : g.HasLayout (CodePoint.Fits g.asciiOnly.isTrue)) :
    Succeeds (generate v id s).1 ↔
      Succeeds (Render.layOut (.outcome g.format s) g.format g.depth v) := by
  have hagrees := Render.layOut_outcome_agrees (f := g.format) hlayout.format hv g.depth s
  rw [generate_eq_join hv hg hlayout]
  generalize Render.layOut (.outcome g.format s) g.format g.depth v = parts at hagrees
  cases hagrees with
  | error e => exact iff_of_false (not_succeeds e) (not_succeeds e)
  | ok hjoin _ _ => exact iff_of_true ⟨_, hjoin⟩ ⟨_, rfl⟩

/-- With texts between tokens that can stand in the output, and whole numbers for the depth and the limit,
there is text for a value without objects that write themselves exactly if each node in it keeps to the
rules and can be indented at the depth where it stands, counted from that of the generator. The check of
the output refuses nothing that was rendered. A key of data has a text exactly if all whole numbers that
show in it are short. -/
theorem generate_succeeds {v : Value} (hv : v.IsNative) {s : Session} {id : Nat} {g : Generator}
    (hg : s.generator? id = some g) (hlayout : g.HasLayout (CodePoint.Fits g.asciiOnly.isTrue)) {d : Int}
    (hd : g.depth.int? = some d) {limit : Int} (hlimit : g.maxNesting.int? = some limit) {indent : Text}
    (hindent : g.indent.text? = some indent) :
    ((∃ t, (generate v id s).1 = .ok t) ↔ ∀ k w, v.Nested k w →
      g.format.Accepts limit s.describe (d + k) w ∧ g.format.Indents indent (d + k) w) ∧
    (generate v id s).1 = (render v id none s).1 ∧
    ∀ key : Value, key.IsKey (fun _ => True) →
      ((key.keyText? s.describe).isSome ↔ ∀ n, key.Shows [] n → Decimal.IsShort n) := by
  obtain ⟨x, hx, hxm⟩ := Value.number?_of_int? hlimit
  have htexts : g.HasLayout fun _ => True := hlayout.mono fun _ _ => trivial
  refine ⟨?_, generate_eq_render hv hg hlayout, fun key hkey => Value.keyText?_isSome hkey s.describe⟩
  rw [← Render.layOut_succeeds htexts.format hindent hx hxm hv hd]
  exact generate_succeeds_of_layOut hv hg hlayout

/-- A tuple as a key, and a list of a number, an object that shows itself and bytes. -/
def nodesSample : Value :=
  .dictionary [(.sequence .tuple [.int 1, .binary .bytes [0x78]],
    .list [.float ⟨0x3FF8000000000000⟩, .object (.str (text "o")), .binary .byteArray []])]

/-- Three levels in, with new lines in arrays and a limit that the bytes of the sample just keep to. -/
def innerGenerator : Generator :=
  { Generator.initial with
    indent := .str (text " "), arrayNewline := .str (text "\n"), maxNesting := .int 7, depth := .int 3 }

def nodesText : Text :=
  text "\x7b\"(1, b'x')\":[\n     1.5,\n     \"o\",\n     " ++
    text "\x7b\"json_class\":\"bytearray\",\"raw\":[\n\n      ]\x7d\n    ]\x7d"

/-- The nodes of the sample keep to the rules, since it has a text. A list of null has one since its nodes
keep to them, and a list of a number of too many digits has none since one of its nodes does not. -/
theorem generate_nodesSample :
    let s := { Session.initial true with generators := #[innerGenerator] }
    nodesSample.IsNative ∧ innerGenerator.IsValid ∧
      (generate nodesSample 0 s).1 = .ok nodesText ∧
      (∀ k w, nodesSample.Nested k w → innerGenerator.format.Accepts 7 s.describe (3 + k) w ∧
        innerGenerator.format.Indents (text " ") (3 + k) w) ∧
      (∃ t, (generate (.list [.null]) 0 s).1 = .ok t) ∧
      ¬ ∃ t, (generate (.list [.int longNumber]) 0 s).1 = .ok t := by
  intro s
  have hv : nodesSample.IsNative := ⟨⟨trivial, trivial, trivial, trivial⟩, trivial⟩
  have hg : s.generator? 0 = some innerGenerator := rfl
  have hvalid : innerGenerator.IsValid :=
    ⟨fun t => by cases t <;> exact ⟨_, rfl⟩, List.forall_mem_nil _⟩
  have hascii : innerGenerator.HasLayout CodePoint.IsAscii := by decide
  have hsucceeds {v : Value} (hv : v.IsNative) :=
    (generate_succeeds hv hg (hascii.fits _) rfl rfl rfl).1
  have ht : (generate nodesSample 0 s).1 = .ok nodesText := by
    rw [generate_outcome hv hg]
    decide +kernel
  have hnull : (Value.list [.null]).IsNative := ⟨trivial, trivial⟩
  have hlong : (Value.list [.int longNumber]).IsNative := ⟨trivial, trivial⟩
  refine ⟨hv, hvalid, ht, (hsucceeds hv).mp ⟨_, ht⟩, (hsucceeds hnull).mpr ?_, fun htext => ?_⟩
  · have hnode : (Value.list [.null]).node = .array [.null] := rfl
    refine (Value.forall_nested_of_array hnode).mpr
      ⟨⟨.inr (by decide), fun newline _ => .inr (by decide)⟩, List.forall_mem_singleton.mpr ?_⟩
    exact (Value.forall_nested_of_scalar rfl).mpr ⟨trivial, trivial⟩
  · have hnumber := (hsucceeds hlong).mp htext 1 (.int longNumber)
      (.item rfl (List.mem_singleton.mpr rfl) (.self _))
    have hshort : ¬ Decimal.IsShort longNumber := by
      rw [Decimal.IsShort, longNumber, Int.natAbs_natCast]
      exact Nat.lt_irrefl _
    exact hshort hnumber.1

/-- New lines in arrays at a depth that does not fit a machine word, without a limit on nesting. -/
def farIndented : Generator :=
  { Generator.initial with
    arrayNewline := .str (text "\n"), maxNesting := .int 0, depth := .int 0x8000000000000000 }

/-- An empty list keeps to the rules there, but its lines cannot be indented, though the indentation is
empty. -/
theorem generate_farIndented :
    let s := { Session.initial true with generators := #[farIndented] }
    (Value.list []).IsNative ∧ farIndented.IsValid ∧ farIndented.HasLayout CodePoint.IsAscii ∧
      farIndented.maxNesting.int? = some 0 ∧ farIndented.depth.int? = some 0x8000000000000000 ∧
      (∀ k w, (Value.list []).Nested k w →
        farIndented.format.Accepts 0 s.describe (0x8000000000000000 + k) w) ∧
      (generate (.list []) 0 s).1 = .error (.overflow (.count (text "int"))) := by
  intro s
  have hv : (Value.list []).IsNative := trivial
  refine ⟨hv, ⟨fun t => by cases t <;> exact ⟨_, rfl⟩, List.forall_mem_nil _⟩, by decide, rfl, rfl, ?_, ?_⟩
  · have hnode : (Value.list []).node = .array [] := rfl
    rw [Value.forall_nested_of_array hnode]
    exact ⟨.inl rfl, List.forall_mem_nil _⟩
  · rw [generate_outcome hv rfl]
    decide +kernel

end JsonWriter
