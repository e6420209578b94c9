import JsonWriter.Proofs.Decimal.Rounding
import JsonWriter.Proofs.Tree
import JsonWriter.Session.Read

/-!
# When two keys are the same

What a key is to a dictionary is its form: a number by its value, a text or bytes by content, a tuple by
its items, and anything else by its identity. Main statement: `sameKey_iff`, two keys are the same if
they have the same form.
-/

namespace JsonWriter

/-- What a key is to a dictionary. -/
inductive KeyForm
  | null
  | type (name : Text)
  | whole (n : Int)
  | floating (x : Binary64)
  | text (t : Text)
  | data (bytes : List UInt8)
  | tuple (items : List KeyForm)
  | object (identity : Nat)

/-! ## Numbers -/

namespace Binary64

theorem truncate_of_equalsInt {x : Binary64} {n : Int} (h : x.EqualsInt n) : x.truncate = n := by
  obtain ⟨-, hsign, hvalue⟩ := h
  have hnumerator : x.numerator = n * ((1 <<< x.scale : Nat) : Int) := by
    have hshift : (n.natAbs <<< (-x.exponent).toNat : Nat) = n.natAbs * (1 <<< x.scale) := by
      rw [Nat.shiftLeft_eq, scale, Nat.one_shiftLeft]
    rw [numerator, hvalue, hshift]
    by_cases hn : n = 0
    · simp [hn]
    · by_cases hneg : n < 0
      · rw [if_pos (by rw [hsign hn, decide_eq_true hneg])]
        push_cast
        rw [← neg_mul, abs_of_neg hneg, neg_neg]
      · rw [if_neg (by rw [hsign hn, decide_eq_false hneg]; decide)]
        push_cast
        rw [abs_of_nonneg (Int.not_lt.mp hneg)]
  have hscale : ((1 <<< x.scale : Nat) : Int) ≠ 0 := by
    rw [Nat.one_shiftLeft]
    positivity
  rw [truncate, hnumerator, Int.mul_tdiv_cancel _ hscale]

/-- No other number has the value of a whole one other than zero. -/
theorem eq_of_equalsInt {x y : Binary64} {n : Int} (hx : x.EqualsInt n) (hy : y.EqualsInt n)
    (hn : n ≠ 0) : x = y := by
  have hround {x : Binary64} (h : x.EqualsInt n) :
      ofQuotient? (decide (n < 0)) n.natAbs 1 = some x := by
    obtain ⟨hfinite, hsign, hvalue⟩ := h
    have hcast : (x.significand : ℚ) * 2 ^ x.exponent = n.natAbs := by
      have h : ((x.significand <<< x.exponent.toNat : ℕ) : ℚ) =
          ((n.natAbs <<< (-x.exponent).toNat : ℕ) : ℚ) := by rw [hvalue]
      rw [cast_shiftLeft, cast_shiftLeft] at h
      have hpos : (0 : ℚ) < 2 ^ (-x.exponent).toNat := by positivity
      rw [zpow_eq_div, ← mul_div_assoc, div_eq_iff hpos.ne', h]
    have hzero : x.significand ≠ 0 := by
      intro hzero
      rw [hzero, Nat.cast_zero, zero_mul] at hcast
      exact hn (Int.natAbs_eq_zero.mp (by exact_mod_cast hcast.symm))
    have hunit : (0 : ℚ) < 2 ^ x.exponent := by positivity
    have hgap : (1 : ℚ) ≤ x.gapBelow := by
      rw [gapBelow]
      split <;> norm_num
    have hnears : x.Nears ((n.natAbs : ℕ) / (1 : ℕ)) := by
      simp only [Nears, two_zpow_sub_two, Nat.cast_one, div_one, ← hcast]
      refine ⟨by nlinarith, by nlinarith, fun h => ?_⟩
      obtain h | h := h
      · nlinarith
      · nlinarith
    rw [← hsign hn]
    exact ofQuotient?_of_nears hfinite hzero Nat.one_pos hnears
  exact Option.some.inj ((hround hx).symm.trans (hround hy))

/-- A number with a whole value goes by that, and NaN is equal to nothing. -/
def keyForm? (x : Binary64) : Option KeyForm :=
  if x.IsNan then none
  else if x.EqualsInt x.truncate then some (.whole x.truncate)
  else some (.floating x)

theorem keyForm?_eq_whole {x : Binary64} {n : Int} :
    x.keyForm? = some (.whole n) ↔ x.EqualsInt n := by
  constructor
  · intro h
    unfold keyForm? at h
    split at h
    · cases h
    · split at h
      · next hx =>
        obtain rfl := KeyForm.whole.inj (Option.some.inj h)
        exact hx
      · cases h
  · intro h
    have hnan : ¬ x.IsNan := fun hx => h.1 hx.1
    rw [keyForm?, if_neg hnan, truncate_of_equalsInt h, if_pos h]

theorem keyForm?_cases {x : Binary64} {f : KeyForm} (h : x.keyForm? = some f) :
    ¬ x.IsNan ∧ ((∃ n, f = .whole n ∧ x.EqualsInt n) ∨ f = .floating x) := by
  unfold keyForm? at h
  split at h
  · cases h
  · next hnan =>
    split at h
    · next hx => exact ⟨hnan, .inl ⟨_, (Option.some.inj h).symm, hx⟩⟩
    · exact ⟨hnan, .inr (Option.some.inj h).symm⟩

theorem equalsInt_zero {x : Binary64} : x.EqualsInt 0 ↔ x.IsFinite ∧ x.significand = 0 := by
  simp [EqualsInt, Nat.shiftLeft_eq]

theorem equals_iff {x y : Binary64} :
    x.Equals y ↔ ∃ f, x.keyForm? = some f ∧ y.keyForm? = some f := by
  constructor
  · rintro ⟨hnan, rfl | ⟨hx, hy, hzx, hzy⟩⟩
    · obtain ⟨f, hf⟩ : ∃ f, x.keyForm? = some f := by
        rw [keyForm?, if_neg hnan]
        split <;> exact ⟨_, rfl⟩
      exact ⟨f, hf, hf⟩
    · exact ⟨.whole 0, keyForm?_eq_whole.mpr (equalsInt_zero.mpr ⟨hx, hzx⟩),
        keyForm?_eq_whole.mpr (equalsInt_zero.mpr ⟨hy, hzy⟩)⟩
  · rintro ⟨f, hx, hy⟩
    obtain ⟨hnan, ⟨n, rfl, hxn⟩ | rfl⟩ := keyForm?_cases hx
    · refine ⟨hnan, ?_⟩
      have hyn := keyForm?_eq_whole.mp hy
      by_cases hn : n = 0
      · subst hn
        obtain ⟨hfx, hzx⟩ := equalsInt_zero.mp hxn
        obtain ⟨hfy, hzy⟩ := equalsInt_zero.mp hyn
        exact .inr ⟨hfx, hfy, hzx, hzy⟩
      · exact .inl (eq_of_equalsInt hxn hyn hn)
    · obtain ⟨-, ⟨n, hn, -⟩ | hxy⟩ := keyForm?_cases hy
      · cases hn
      · exact ⟨hnan, .inl (KeyForm.floating.inj hxy)⟩

end Binary64

namespace Value

/-- The form of a number. -/
def numberForm? (v : Value) : Option KeyForm :=
  match v with
  | float x => x.keyForm?
  | v => v.int?.map .whole

theorem numberForm?_of_ne {v : Value} (h : ∀ x, v = float x → False) :
    v.numberForm? = v.int?.map .whole := by
  unfold numberForm?
  split
  · exact (h _ rfl).elim
  · rfl

/-- Things that are there and equal have a common form, if each has its own. -/
theorem isSome_and_beq_iff {α : Type} [BEq α] [LawfulBEq α] {form : α → KeyForm}
    (hform : ∀ a b, form a = form b → a = b) (a? b? : Option α) :
    (a?.isSome && a? == b?) = true ↔ ∃ f, a?.map form = some f ∧ b?.map form = some f := by
  cases a? with
  | none => simp
  | some a =>
    cases b? with
    | none => simp
    | some b =>
      simp only [Option.isSome_some, Bool.true_and, beq_iff_eq, Option.some.injEq, Option.map_some]
      exact ⟨fun h => ⟨_, rfl, h ▸ rfl⟩, fun ⟨f, ha, hb⟩ => hform a b (ha.trans hb.symm)⟩

theorem sameNumber_iff {v w : Value} :
    sameNumber v w = true ↔ ∃ f, v.numberForm? = some f ∧ w.numberForm? = some f := by
  have hwhole {x : Binary64} {n? : Option Int} :
      (n?.elim false fun n => decide (x.EqualsInt n)) = true ↔
        ∃ f, x.keyForm? = some f ∧ n?.map KeyForm.whole = some f := by
    cases n? with
    | none => simp
    | some n => simp [← Binary64.keyForm?_eq_whole, eq_comm]
  unfold sameNumber
  split
  · rw [decide_eq_true_iff, Binary64.equals_iff]
    rfl
  · next x w hw =>
    rw [hwhole, numberForm?_of_ne hw]
    rfl
  · next y hv =>
    rw [hwhole, numberForm?_of_ne hv]
    simp only [numberForm?, and_comm]
  · next hv hw hfloat =>
    rw [numberForm?_of_ne (fun x => hv x), numberForm?_of_ne hw]
    exact isSome_and_beq_iff (fun _ _ => KeyForm.whole.inj) _ _

/-! ## Keys -/

theorem content_content (v : Value) : v.content.content = v.content :=
  apply_content content (fun _ => rfl) (fun _ _ => rfl) v

theorem text?_content (v : Value) : v.content.text? = v.text? := by
  rw [text?, text?, content_content]

/-- The form of a value that has one as a number, a text or bytes. -/
def contentForm? (v : Value) : Option KeyForm :=
  v.numberForm?.or ((v.text?.map .text).or (v.data?.map .data))

/-- The form of a value without items. -/
def scalarForm? (v : Value) : Option KeyForm :=
  match v with
  | null => some .null
  | type name => some (.type name)
  | v => v.contentForm?

theorem numberForm?_cases {v : Value} {f : KeyForm} (h : v.numberForm? = some f) :
    ((∃ n, f = .whole n) ∨ ∃ x, f = .floating x) ∧ v.text? = none ∧ v.data? = none := by
  unfold numberForm? at h
  split at h
  · next x =>
    obtain ⟨-, ⟨n, rfl, -⟩ | rfl⟩ := Binary64.keyForm?_cases h
    · exact ⟨.inl ⟨n, rfl⟩, rfl, rfl⟩
    · exact ⟨.inr ⟨x, rfl⟩, rfl, rfl⟩
  · obtain ⟨n, hn, rfl⟩ := Option.map_eq_some_iff.mp h
    refine ⟨.inl ⟨n, rfl⟩, ?_⟩
    unfold int? at hn
    unfold text? data?
    split at hn <;> simp_all

theorem data?_of_text? {v : Value} {t : Text} (h : v.text? = some t) : v.data? = none := by
  unfold text? at h
  unfold data?
  split at h <;> simp_all

theorem contentForm?_cases {v : Value} {f : KeyForm} (h : v.contentForm? = some f) :
    (v.numberForm? = some f ∧ ((∃ n, f = .whole n) ∨ ∃ x, f = .floating x)) ∨
      (∃ t, v.text? = some t ∧ f = .text t) ∨ ∃ bytes, v.data? = some bytes ∧ f = .data bytes := by
  unfold contentForm? at h
  cases hn : v.numberForm? with
  | some f' =>
    rw [hn, Option.some_or] at h
    obtain rfl := Option.some.inj h
    exact .inl ⟨rfl, (numberForm?_cases hn).1⟩
  | none =>
    rw [hn, Option.none_or] at h
    cases ht : v.text? with
    | some t =>
      rw [ht] at h
      exact .inr (.inl ⟨t, rfl, (Option.some.inj h).symm⟩)
    | none =>
      rw [ht, Option.map_none, Option.none_or] at h
      obtain ⟨bytes, hbytes, rfl⟩ := Option.map_eq_some_iff.mp h
      exact .inr (.inr ⟨bytes, hbytes, rfl⟩)

theorem contentForm?_of_text? {v : Value} {t : Text} (h : v.text? = some t) :
    v.contentForm? = some (.text t) := by
  cases hn : v.numberForm? with
  | some f => exact absurd ((numberForm?_cases hn).2.1.symm.trans h) (by simp)
  | none => simp [contentForm?, hn, h]

theorem contentForm?_of_data? {v : Value} {bytes : List UInt8} (h : v.data? = some bytes) :
    v.contentForm? = some (.data bytes) := by
  cases hn : v.numberForm? with
  | some f => exact absurd ((numberForm?_cases hn).2.2.symm.trans h) (by simp)
  | none =>
    cases ht : v.text? with
    | some t => exact absurd ((data?_of_text? ht).symm.trans h) (by simp)
    | none => simp [contentForm?, hn, ht, h]

theorem sameContent_iff {v w : Value} :
    (sameNumber v w || (v.text?.isSome && v.text? == w.text?) ||
      (v.data?.isSome && v.data? == w.data?)) = true ↔
      ∃ f, v.contentForm? = some f ∧ w.contentForm? = some f := by
  rw [Bool.or_eq_true, Bool.or_eq_true, sameNumber_iff,
    isSome_and_beq_iff (fun _ _ => KeyForm.text.inj), isSome_and_beq_iff (fun _ _ => KeyForm.data.inj)]
  simp only [Option.map_eq_some_iff]
  constructor
  · rintro ((⟨f, hv, hw⟩ | ⟨f, ⟨t, hv, rfl⟩, u, hw, hu⟩) | ⟨f, ⟨t, hv, rfl⟩, u, hw, hu⟩)
    · exact ⟨f, by simp [contentForm?, hv], by simp [contentForm?, hw]⟩
    · exact ⟨_, contentForm?_of_text? hv, hu ▸ contentForm?_of_text? hw⟩
    · exact ⟨_, contentForm?_of_data? hv, hu ▸ contentForm?_of_data? hw⟩
  · rintro ⟨f, hv, hw⟩
    obtain ⟨hv, hf⟩ | ⟨t, ht, rfl⟩ | ⟨t, ht, rfl⟩ := contentForm?_cases hv
    · obtain ⟨hw, -⟩ | ⟨t, -, rfl⟩ | ⟨t, -, rfl⟩ := contentForm?_cases hw
      · exact .inl (.inl ⟨f, hv, hw⟩)
      · simp at hf
      · simp at hf
    · obtain ⟨-, hf⟩ | ⟨u, hu, heq⟩ | ⟨u, -, heq⟩ := contentForm?_cases hw
      · simp at hf
      · exact .inl (.inr ⟨_, ⟨t, ht, rfl⟩, u, hu, heq.symm⟩)
      · cases heq
    · obtain ⟨-, hf⟩ | ⟨u, -, heq⟩ | ⟨u, hu, heq⟩ := contentForm?_cases hw
      · simp at hf
      · cases heq
      · exact .inr ⟨_, ⟨t, ht, rfl⟩, u, hu, heq.symm⟩

theorem scalarForm?_of_contentForm? {v : Value} {f : KeyForm} (h : v.contentForm? = some f) :
    v.scalarForm? = some f := by
  unfold scalarForm?
  split
  · cases h
  · cases h
  · exact h

theorem scalarForm?_cases {v : Value} {f : KeyForm} (h : v.scalarForm? = some f) :
    (v = null ∧ f = .null) ∨ (∃ name, v = type name ∧ f = .type name) ∨ v.contentForm? = some f := by
  unfold scalarForm? at h
  split at h
  · exact .inl ⟨rfl, (Option.some.inj h).symm⟩
  · next name => exact .inr (.inl ⟨name, rfl, (Option.some.inj h).symm⟩)
  · exact .inr (.inr h)

theorem sameScalar_iff (v w : Value) : sameScalar v w = true ↔
    ∃ f, v.content.scalarForm? = some f ∧ w.content.scalarForm? = some f := by
  unfold sameScalar
  generalize v.content = a
  generalize w.content = b
  split
  · exact iff_of_true rfl ⟨.null, rfl, rfl⟩
  · rw [beq_iff_eq]
    exact ⟨fun h => ⟨_, rfl, h ▸ rfl⟩, fun ⟨f, hf, hg⟩ =>
      KeyForm.type.inj ((Option.some.inj hf).trans (Option.some.inj hg).symm)⟩
  · next hnull htype =>
    rw [sameContent_iff]
    constructor
    · exact fun ⟨f, hv, hw⟩ => ⟨f, scalarForm?_of_contentForm? hv, scalarForm?_of_contentForm? hw⟩
    · rintro ⟨f, hv, hw⟩
      obtain ⟨rfl, rfl⟩ | ⟨name, rfl, rfl⟩ | hv := scalarForm?_cases hv
      · obtain ⟨rfl, -⟩ | ⟨_, -, heq⟩ | hw := scalarForm?_cases hw
        · exact (hnull rfl rfl).elim
        · cases heq
        · simpa using contentForm?_cases hw
      · obtain ⟨-, heq⟩ | ⟨name', rfl, -⟩ | hw := scalarForm?_cases hw
        · cases heq
        · exact (htype _ _ rfl rfl).elim
        · simpa using contentForm?_cases hw
      · obtain ⟨-, rfl⟩ | ⟨_, -, rfl⟩ | hw := scalarForm?_cases hw
        · simpa using contentForm?_cases hv
        · simpa using contentForm?_cases hv
        · exact ⟨f, hv, hw⟩

mutual

/-- The form of a key; none for what is equal to nothing and has no identity. -/
def keyForm? : Value → Option KeyForm
  | own i v => some ((keyForm? v).getD (.object i))
  | derived v => keyForm? v
  | sequence .tuple items => (keyForms? items).map .tuple
  | v => v.scalarForm?
termination_by structural v => v

def keyForms? : List Value → Option (List KeyForm)
  | [] => some []
  | v :: rest =>
    match keyForm? v, keyForms? rest with
    | some f, some fs => some (f :: fs)
    | _, _ => none
termination_by structural vs => vs

end

theorem keyForms?_cons {v : Value} {rest : List Value} {forms : List KeyForm} :
    keyForms? (v :: rest) = some forms ↔
      ∃ f fs, v.keyForm? = some f ∧ keyForms? rest = some fs ∧ f :: fs = forms := by
  rw [keyForms?]
  cases v.keyForm? <;> cases keyForms? rest <;> simp

mutual

/-- The identities in a key are those of the given objects. Only what needs one has an identity. -/
def IsIdentified (objects : Nat → Value) : Value → Prop
  | own i v => (v.isDistinct = true ∧ v = objects i) ∧ v.IsIdentified objects
  | derived v => v.IsIdentified objects
  | sequence .tuple items => AreIdentified objects items
  | _ => True
termination_by structural v => v

def AreIdentified (objects : Nat → Value) : List Value → Prop
  | [] => True
  | v :: rest => v.IsIdentified objects ∧ AreIdentified objects rest
termination_by structural vs => vs

end

variable {objects : Nat → Value}

theorem content_of_isDistinct {v : Value} (h : v.isDistinct = true) :
    v.content = v ∧ v.identity? = none := by
  cases v <;> first | exact ⟨rfl, rfl⟩ | cases h

theorem isIdentified_content : (v : Value) → v.IsIdentified objects → v.content.IsIdentified objects
  | derived base, h => isIdentified_content base h
  | own _ v, h => isIdentified_content v h.2
  | null, h | bool _, h | int _, h | float _, h | str _, h | setting _, h | binary _ _, h
  | memory _, h | sequence _ _, h | mapping _ _, h | selfList _, h | selfDictionary _, h | outer _, h
  | object _, h | type _, h | extension _, h | generator _, h | described _, h => h

/-- The content of a value is a tuple or without items. -/
theorem keyForm?_content : (v : Value) →
    (∃ items, v.content = sequence .tuple items) ∨ v.content.keyForm? = v.content.scalarForm?
  | derived base => keyForm?_content base
  | own _ v => keyForm?_content v
  | sequence .tuple items => .inl ⟨items, rfl⟩
  | null | bool _ | int _ | float _ | str _ | setting _ | binary _ _ | memory _ | sequence .list _
  | mapping _ _ | selfList _ | selfDictionary _ | outer _ | object _ | type _ | extension _
  | generator _ | described _ => .inr rfl

/-- Without an identity, no value has the form of an object. -/
theorem keyForm?_content_ne_object (v : Value) (i : Nat) :
    v.content.keyForm? ≠ some (.object i) := by
  intro h
  obtain ⟨items, hitems⟩ | hscalar := keyForm?_content v
  · rw [hitems, keyForm?] at h
    obtain ⟨_, -, h⟩ := Option.map_eq_some_iff.mp h
    cases h
  · obtain ⟨-, h⟩ | ⟨_, -, h⟩ | h := scalarForm?_cases (hscalar ▸ h)
    · cases h
    · cases h
    · simpa using contentForm?_cases h

/-- An identity is that of its object. -/
theorem keyForm?_of_identity? {i : Nat} : (v : Value) → v.IsIdentified objects →
    v.identity? = some i → v.keyForm? = some (((objects i).keyForm?).getD (.object i))
  | derived base, h, hi => keyForm?_of_identity? base h hi
  | own j v, h, hi => by
    obtain rfl := Option.some.inj hi
    rw [keyForm?, ← h.1.2]
  | null, _, hi | bool _, _, hi | int _, _, hi | float _, _, hi | str _, _, hi | setting _, _, hi
  | binary _ _, _, hi | memory _, _, hi | sequence _ _, _, hi | mapping _ _, _, hi
  | selfList _, _, hi | selfDictionary _, _, hi | outer _, _, hi | object _, _, hi | type _, _, hi
  | extension _, _, hi | generator _, _, hi | described _, _, hi => nomatch hi

/-- The form of a value is that of its content, or else that of an object. -/
theorem keyForm?_cases {f : KeyForm} : (v : Value) → v.IsIdentified objects →
    v.keyForm? = some f →
      v.content.keyForm? = some f ∨ ∃ i, f = .object i ∧ v.identity? = some i
  | derived base, h, hf => keyForm?_cases base h hf
  | own i v, h, hf => by
    rw [keyForm?, Option.some.injEq] at hf
    rw [content, (content_of_isDistinct h.1.1).1]
    cases hv : v.keyForm? with
    | none => exact .inr ⟨i, by rw [← hf, hv]; rfl, rfl⟩
    | some g => exact .inl (by rw [← hf, hv]; rfl)
  | null, _, hf | bool _, _, hf | int _, _, hf | float _, _, hf | str _, _, hf | setting _, _, hf
  | binary _ _, _, hf | memory _, _, hf | sequence _ _, _, hf | mapping _ _, _, hf
  | selfList _, _, hf | selfDictionary _, _, hf | outer _, _, hf | object _, _, hf | type _, _, hf
  | extension _, _, hf | generator _, _, hf | described _, _, hf => .inl hf

theorem keyForm?_of_content {f : KeyForm} : (v : Value) → v.IsIdentified objects →
    v.content.keyForm? = some f → v.keyForm? = some f
  | derived base, h, hf => keyForm?_of_content base h hf
  | own i v, h, hf => by
    rw [content, (content_of_isDistinct h.1.1).1] at hf
    rw [keyForm?, hf]
    rfl
  | null, _, hf | bool _, _, hf | int _, _, hf | float _, _, hf | str _, _, hf | setting _, _, hf
  | binary _ _, _, hf | memory _, _, hf | sequence _ _, _, hf | mapping _ _, _, hf
  | selfList _, _, hf | selfDictionary _, _, hf | outer _, _, hf | object _, _, hf | type _, _, hf
  | extension _, _, hf | generator _, _, hf | described _, _, hf => hf

/-- A value without items is the same key as others of its form. -/
theorem sameScalar_iff_keyForm? {v w : Value} (hv : v.content.keyForm? = v.content.scalarForm?)
    (hw : w.IsIdentified objects) : sameScalar v w = true ↔
      ∃ f, v.content.keyForm? = some f ∧ w.keyForm? = some f := by
  rw [sameScalar_iff, hv]
  constructor
  · rintro ⟨f, hf, hg⟩
    obtain ⟨items, hitems⟩ | hscalar := keyForm?_content w
    · rw [hitems] at hg
      cases hg
    · exact ⟨f, hf, keyForm?_of_content w hw (hscalar ▸ hg)⟩
  · rintro ⟨f, hf, hg⟩
    refine ⟨f, hf, ?_⟩
    obtain hg | ⟨i, rfl, -⟩ := keyForm?_cases w hw hg
    · obtain ⟨items, hitems⟩ | hscalar := keyForm?_content w
      · rw [hitems, keyForm?] at hg
        obtain ⟨fs, -, rfl⟩ := Option.map_eq_some_iff.mp hg
        obtain ⟨-, h⟩ | ⟨_, -, h⟩ | h := scalarForm?_cases hf
        · cases h
        · cases h
        · simpa using contentForm?_cases h
      · exact hscalar ▸ hg
    · exact absurd (hv ▸ hf) (keyForm?_content_ne_object v i)

mutual

/-- Two keys are the same if they have the same form. -/
theorem sameKey_iff : (v : Value) → v.IsIdentified objects → ∀ {w : Value}, w.IsIdentified objects →
    (v.sameKey w = true ↔ ∃ f, v.keyForm? = some f ∧ w.keyForm? = some f)
  | own i v, h, w, hw => by
    have hv := sameKey_iff v h.2 hw
    rw [sameKey, Bool.or_eq_true, beq_iff_eq, hv, keyForm?]
    constructor
    -- With the same identity they are the same object, and so have the same form.
    · rintro (hi | ⟨f, hf, hg⟩)
      · exact ⟨_, rfl, h.1.2 ▸ keyForm?_of_identity? w hw hi⟩
      · exact ⟨f, by rw [hf]; rfl, hg⟩
    · rintro ⟨f, hf, hg⟩
      cases hform : v.keyForm? with
      | some g =>
        rw [hform] at hf
        exact .inr ⟨g, rfl, hf ▸ hg⟩
      | none =>
        rw [hform] at hf
        obtain rfl := Option.some.inj hf
        obtain hg | ⟨j, hj, hi⟩ := keyForm?_cases w hw hg
        · exact absurd hg (keyForm?_content_ne_object w i)
        · obtain rfl := KeyForm.object.inj hj
          exact .inl hi
  | derived v, h, w, hw => sameKey_iff v h hw
  | sequence .tuple vs, h, w, hw => by
    rw [sameKey, keyForm?]
    split
    · next ws hcontent =>
      have hws : AreIdentified objects ws := by
        have hcontent' := isIdentified_content w hw
        rwa [hcontent] at hcontent'
      have hform : w.content.keyForm? = (keyForms? ws).map .tuple := by rw [hcontent, keyForm?]
      rw [sameKeys_iff vs h hws]
      constructor
      · rintro ⟨fs, hf, hg⟩
        exact ⟨_, by rw [hf]; rfl, keyForm?_of_content w hw (by rw [hform, hg]; rfl)⟩
      · rintro ⟨f, hf, hg⟩
        obtain ⟨fs, hfs, rfl⟩ := Option.map_eq_some_iff.mp hf
        obtain hg | ⟨_, hi, -⟩ := keyForm?_cases w hw hg
        · rw [hform] at hg
          obtain ⟨gs, hgs, heq⟩ := Option.map_eq_some_iff.mp hg
          exact ⟨fs, hfs, KeyForm.tuple.inj heq ▸ hgs⟩
        · cases hi
    · next hcontent =>
      refine iff_of_false (by decide) ?_
      rintro ⟨f, hf, hg⟩
      obtain ⟨fs, -, rfl⟩ := Option.map_eq_some_iff.mp hf
      obtain hg | ⟨_, hi, -⟩ := keyForm?_cases w hw hg
      · obtain ⟨items, hitems⟩ | hscalar := keyForm?_content w
        · exact hcontent items hitems
        · obtain ⟨-, h⟩ | ⟨_, -, h⟩ | h := scalarForm?_cases (hscalar ▸ hg)
          · cases h
          · cases h
          · simpa using contentForm?_cases h
      · cases hi
  | null, _, _, hw | bool _, _, _, hw | int _, _, _, hw | float _, _, _, hw | str _, _, _, hw
  | setting _, _, _, hw | binary _ _, _, _, hw | memory _, _, _, hw | sequence .list _, _, _, hw
  | mapping _ _, _, _, hw | selfList _, _, _, hw | selfDictionary _, _, _, hw | outer _, _, _, hw
  | object _, _, _, hw | type _, _, _, hw | extension _, _, _, hw | generator _, _, _, hw
  | described _, _, _, hw => sameScalar_iff_keyForm? rfl hw
termination_by structural v => v

theorem sameKeys_iff : (vs : List Value) → AreIdentified objects vs → ∀ {ws : List Value},
    AreIdentified objects ws →
    (sameKeys vs ws = true ↔ ∃ fs, keyForms? vs = some fs ∧ keyForms? ws = some fs)
  | [], _, [], _ => iff_of_true rfl ⟨[], rfl, rfl⟩
  | [], _, w :: ws, _ => by
    refine iff_of_false (by simp [sameKeys]) ?_
    rintro ⟨forms, hnil, hcons⟩
    obtain rfl := Option.some.inj hnil
    obtain ⟨_, _, -, -, h⟩ := keyForms?_cons.mp hcons
    cases h
  | v :: rest, _, [], _ => by
    refine iff_of_false (by simp [sameKeys]) ?_
    rintro ⟨forms, hcons, hnil⟩
    obtain rfl := Option.some.inj hnil
    obtain ⟨_, _, -, -, h⟩ := keyForms?_cons.mp hcons
    cases h
  | v :: rest, h, w :: ws, hws => by
    rw [sameKeys, Bool.and_eq_true, sameKey_iff v h.1 hws.1, sameKeys_iff rest h.2 hws.2]
    simp only [keyForms?_cons]
    constructor
    · rintro ⟨⟨f, hf, hg⟩, fs, hfs, hgs⟩
      exact ⟨f :: fs, ⟨f, fs, hf, hfs, rfl⟩, f, fs, hg, hgs, rfl⟩
    · rintro ⟨_, ⟨f, fs, hf, hfs, rfl⟩, g, gs, hg, hgs, heq⟩
      obtain ⟨rfl, rfl⟩ := List.cons.inj heq
      exact ⟨⟨_, hf, hg⟩, _, hfs, hgs⟩
termination_by structural vs => vs

end

theorem sameKey_comm {u v : Value} (hu : u.IsIdentified objects) (hv : v.IsIdentified objects) :
    u.sameKey v = v.sameKey u := by
  rw [Bool.eq_iff_iff, sameKey_iff u hu hv, sameKey_iff v hv hu]
  simp only [and_comm]

section

variable {k u v : Value} (hk : k.IsIdentified objects) (hu : u.IsIdentified objects)
  (hv : v.IsIdentified objects)

include hk hu hv

/-- Of two keys that are the same, both or neither are the same as a third one. -/
theorem sameKey_congr (h : u.sameKey v = true) : k.sameKey u = k.sameKey v := by
  obtain ⟨f, hf, hg⟩ := (sameKey_iff u hu hv).mp h
  rw [Bool.eq_iff_iff, sameKey_iff k hk hu, sameKey_iff k hk hv, hf, hg]

/-- Two keys that are the same as a third one are the same. -/
theorem sameKey_of_sameKey (hku : k.sameKey u = true) (hkv : k.sameKey v = true) :
    u.sameKey v = true := by
  obtain ⟨f, hf, hg⟩ := (sameKey_iff k hk hu).mp hku
  obtain ⟨f', hf', hg'⟩ := (sameKey_iff k hk hv).mp hkv
  obtain rfl := Option.some.inj (hf.symm.trans hf')
  exact (sameKey_iff u hu hv).mpr ⟨f, hg, hg'⟩

end

end Value

end JsonWriter
