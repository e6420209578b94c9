import JsonWriter.Proofs.Decimal.Numerals

/-!
# The nearest number

What a rational number is rounded to, said without midpoints: a finite number that no other one is
nearer than, of two that are equally near the even one. Main statements: `rounds_iff_nears`, that is to
be between the midpoints, and `eq_of_rounds`, there is one such number of each sign.
-/

namespace JsonWriter.Binary64

/-- A finite number without its sign. -/
def magnitude (x : Binary64) : ℚ := x.significand * 2 ^ x.exponent

/-- A magnitude with a sign. -/
def signed (negative : Bool) (v : ℚ) : ℚ := if negative then -v else v

/-- What a finite number is exactly. -/
def exact (x : Binary64) : ℚ := signed x.negative x.magnitude

/-- Half a unit past the greatest finite number. -/
def limit : ℚ := 2 ^ 1024 - 2 ^ 970

/-- A rational number is rounded to a finite one: to the nearest, with ties to even. What is out as far
as the limit is not rounded to any. -/
structure Rounds (v : ℚ) (x : Binary64) : Prop where
  finite : x.IsFinite
  within : |v| < limit
  nearest : ∀ y : Binary64, y.IsFinite → |v - x.exact| ≤ |v - y.exact|
  even : ∀ y : Binary64, y.IsFinite → y.exact ≠ x.exact → |v - y.exact| = |v - x.exact| →
    x.significand % 2 = 0

/-! ## Signs -/

theorem abs_signed (negative : Bool) (v : ℚ) : |signed negative v| = |v| := by
  cases negative with
  | false => rfl
  | true => exact abs_neg v

theorem abs_signed_sub (negative : Bool) (v w : ℚ) :
    |signed negative v - signed negative w| = |v - w| := by
  cases negative with
  | false => rfl
  | true =>
    have hneg : -v - -w = -(v - w) := by ring
    simp only [signed, ↓reduceIte, hneg, abs_neg]

theorem abs_signed_sub_not (negative : Bool) (v w : ℚ) :
    |signed negative v - signed (!negative) w| = |v + w| := by
  cases negative with
  | false => simp [signed]
  | true =>
    have hneg : -v - w = -(v + w) := by ring
    simp only [signed, Bool.not_true, Bool.false_eq_true, ↓reduceIte, hneg, abs_neg]

/-- Numbers are no nearer to each other than their magnitudes. -/
theorem abs_sub_le_signed {v w : ℚ} (hv : 0 ≤ v) (hw : 0 ≤ w) (b c : Bool) :
    |v - w| ≤ |signed b v - signed c w| := by
  calc |v - w| = |(|signed b v| - |signed c w|)| := by
        rw [abs_signed, abs_signed, abs_of_nonneg hv, abs_of_nonneg hw]
    _ ≤ |signed b v - signed c w| := abs_abs_sub_abs_le _ _

theorem magnitude_nonneg (x : Binary64) : 0 ≤ x.magnitude := by
  rw [magnitude]
  positivity

/-! ## The neighbours of a number -/

/-- The three parts of the bits can be chosen freely. -/
theorem exists_fields (negative : Bool) {e f : ℕ} (he : e < 0x800) (hf : f < leadingWeight) :
    ∃ y : Binary64, y.negative = negative ∧ y.exponentField = e ∧ y.fraction = f := by
  have hbits : (if negative then signWeight else 0) + e * leadingWeight + f < 2 ^ 64 := by
    simp only [signWeight, leadingWeight] at *
    split <;> omega
  refine ⟨⟨.ofNat ((if negative then signWeight else 0) + e * leadingWeight + f)⟩, ?_⟩
  simp only [Binary64.negative, exponentField, fraction, UInt64.toNat_ofNat_of_lt' hbits]
  simp only [signWeight, leadingWeight] at hf ⊢
  cases negative with
  | false =>
    simp only [Bool.false_eq_true, ↓reduceIte, beq_eq_false_iff_ne]
    omega
  | true =>
    simp only [↓reduceIte, beq_iff_eq]
    omega

/-- A significand and an exponent of the right sizes make a finite number. -/
theorem exists_finite (negative : Bool) {m : ℕ} {q : ℤ} (hm : m < 2 * leadingWeight)
    (hq : -1074 ≤ q) (hq' : q ≤ 971) (hlead : -1074 < q → leadingWeight ≤ m) :
    ∃ y : Binary64, y.IsFinite ∧ y.negative = negative ∧ y.significand = m ∧ y.exponent = q := by
  obtain hsmall | hlarge := Nat.lt_or_ge m leadingWeight
  · obtain ⟨y, hnegative, hfield, hfraction⟩ :=
      exists_fields negative (e := 0) (by decide) hsmall
    have hmin : q = -1074 := by
      by_contra hne
      exact absurd (hlead (by omega)) (Nat.not_le.mpr hsmall)
    exact ⟨y, by simp [IsFinite, hfield], hnegative, by simp [significand, hfield, hfraction],
      by simp [exponent, hfield, hmin]⟩
  · obtain ⟨e, rfl⟩ : ∃ e : ℕ, q = e - 1074 := ⟨(q + 1074).toNat, by omega⟩
    obtain ⟨y, hnegative, hfield, hfraction⟩ :=
      exists_fields negative (e := e + 1) (f := m - leadingWeight) (by omega) (by omega)
    refine ⟨y, ?_, hnegative, ?_, ?_⟩
    · rw [IsFinite, hfield]
      omega
    · rw [significand, hfield, hfraction, if_neg (by omega)]
      omega
    · rw [exponent, hfield, if_neg (by omega)]
      omega

/-- The distance to the neighbour above. -/
def stepAbove (x : Binary64) : ℚ := 2 ^ x.exponent

/-- The distance to the neighbour below, which is nearer just past a power of two. -/
def stepBelow (x : Binary64) : ℚ := x.gapBelow / 2 * 2 ^ x.exponent

theorem stepAbove_pos (x : Binary64) : 0 < x.stepAbove := by
  rw [stepAbove]
  positivity

theorem stepBelow_pos (x : Binary64) : 0 < x.stepBelow := by
  have hgap : (0 : ℚ) < x.gapBelow := by
    rw [gapBelow]
    split <;> norm_num
  rw [stepBelow]
  positivity

theorem two_zpow_succ (q : ℤ) : (2 : ℚ) ^ (q + 1) = 2 ^ q * 2 := zpow_add_one₀ two_ne_zero q

/-- A number with an exponent that is not smaller is a whole number of units. -/
theorem magnitude_eq_mul {x y : Binary64} (h : x.exponent ≤ y.exponent) :
    ∃ n : ℕ, y.magnitude = n * 2 ^ x.exponent := by
  obtain ⟨n, hn⟩ : ∃ n : ℕ, y.exponent = x.exponent + n :=
    ⟨(y.exponent - x.exponent).toNat, by omega⟩
  refine ⟨y.significand * 2 ^ n, ?_⟩
  rw [magnitude, hn, zpow_add₀ two_ne_zero, zpow_natCast]
  push_cast
  ring

/-- A number with a smaller exponent is below the power of two that a number starts at. -/
theorem magnitude_le_of_exponent_lt {x y : Binary64} (h : y.exponent < x.exponent) :
    y.magnitude ≤ ((leadingWeight : ℚ) - 1 / 2) * 2 ^ x.exponent := by
  have hsig : (y.significand : ℚ) + 1 ≤ 2 * leadingWeight := by exact_mod_cast y.significand_lt
  calc y.magnitude ≤ (leadingWeight * 2 - 1) * 2 ^ y.exponent := by
        rw [magnitude]
        gcongr
        linarith
    _ = ((leadingWeight : ℚ) - 1 / 2) * 2 ^ (y.exponent + 1) := by rw [two_zpow_succ]; ring
    _ ≤ ((leadingWeight : ℚ) - 1 / 2) * 2 ^ x.exponent := by
        gcongr
        · norm_num [leadingWeight]
        · exact one_le_two
        · omega

theorem above_of_lt {x y : Binary64} (h : x.magnitude < y.magnitude) :
    x.magnitude + x.stepAbove ≤ y.magnitude := by
  have hunit : (0 : ℚ) < 2 ^ x.exponent := by positivity
  obtain hexp | hexp := le_or_gt x.exponent y.exponent
  · obtain ⟨n, hn⟩ := magnitude_eq_mul hexp
    rw [hn, magnitude, mul_lt_mul_iff_left₀ hunit, Nat.cast_lt] at h
    have hle : (x.significand : ℚ) + 1 ≤ n := by exact_mod_cast h
    rw [hn, magnitude, stepAbove]
    nlinarith
  · have hlead : (leadingWeight : ℚ) ≤ x.significand := by
      exact_mod_cast leadingWeight_le_significand (by have := y.exponent_ge; omega)
    have hle := magnitude_le_of_exponent_lt hexp
    rw [magnitude] at h
    nlinarith

theorem below_of_lt {x y : Binary64} (h : y.magnitude < x.magnitude) :
    y.magnitude ≤ x.magnitude - x.stepBelow := by
  have hunit : (0 : ℚ) < 2 ^ x.exponent := by positivity
  have hgap := x.gapBelow_le
  obtain hexp | hexp := le_or_gt x.exponent y.exponent
  · obtain ⟨n, hn⟩ := magnitude_eq_mul hexp
    rw [hn, magnitude, mul_lt_mul_iff_left₀ hunit, Nat.cast_lt] at h
    have hle : (n : ℚ) + 1 ≤ x.significand := by exact_mod_cast h
    rw [hn, magnitude, stepBelow]
    nlinarith
  · have hexp' : -1074 < x.exponent := by
      have := y.exponent_ge
      omega
    have hlead := leadingWeight_le_significand hexp'
    have hshare : (leadingWeight : ℚ) - 1 / 2 ≤ x.significand - x.gapBelow / 2 := by
      rw [gapBelow]
      split
      · next hm => norm_num [hm.1]
      · next hm =>
        have hlt : leadingWeight < x.significand :=
          lt_of_le_of_ne hlead fun heq => hm ⟨heq.symm, hexp'⟩
        have hle : (leadingWeight : ℚ) + 1 ≤ x.significand := by exact_mod_cast hlt
        norm_num
        linarith
    calc y.magnitude ≤ ((leadingWeight : ℚ) - 1 / 2) * 2 ^ x.exponent :=
          magnitude_le_of_exponent_lt hexp
      _ ≤ (x.significand - x.gapBelow / 2) * 2 ^ x.exponent :=
          mul_le_mul_of_nonneg_right hshare hunit.le
      _ = x.magnitude - x.stepBelow := sub_mul _ _ _

theorem exists_below {x : Binary64} (hx : x.IsFinite) (hzero : x.significand ≠ 0) :
    ∃ y : Binary64, y.IsFinite ∧ y.negative = x.negative ∧
      y.magnitude = x.magnitude - x.stepBelow := by
  have hlt := x.significand_lt
  have hge := x.exponent_ge
  have hle := exponent_le hx
  by_cases hedge : x.significand = leadingWeight ∧ -1074 < x.exponent
  · have hgap : x.gapBelow = 1 := if_pos hedge
    obtain ⟨y, hy, hnegative, hsignificand, hexponent⟩ := exists_finite x.negative
      (m := 2 * leadingWeight - 1) (q := x.exponent - 1) (by decide) (by omega) (by omega)
      fun _ => by decide
    refine ⟨y, hy, hnegative, ?_⟩
    rw [magnitude, magnitude, stepBelow, hsignificand, hexponent, hedge.1, hgap,
      zpow_sub_one₀ two_ne_zero]
    norm_num [leadingWeight]
    ring
  · have hgap : x.gapBelow = 2 := if_neg hedge
    obtain ⟨y, hy, hnegative, hsignificand, hexponent⟩ := exists_finite x.negative
      (m := x.significand - 1) (q := x.exponent) (by omega) hge hle fun hexp => by
        have := leadingWeight_le_significand hexp
        omega
    refine ⟨y, hy, hnegative, ?_⟩
    rw [magnitude, magnitude, stepBelow, hsignificand, hexponent, hgap,
      Nat.cast_sub (Nat.one_le_iff_ne_zero.mpr hzero)]
    norm_num
    ring

/-- The greatest finite number has no neighbour above. -/
theorem exists_above {x : Binary64} (hx : x.IsFinite) :
    (x.significand + 1 = 2 * leadingWeight ∧ x.exponent = 971) ∨
      ∃ y : Binary64, y.IsFinite ∧ y.negative = x.negative ∧
        y.magnitude = x.magnitude + x.stepAbove := by
  have hlt := x.significand_lt
  have hge := x.exponent_ge
  have hle := exponent_le hx
  obtain hnext | hnext : x.significand + 1 < 2 * leadingWeight ∨
    x.significand + 1 = 2 * leadingWeight := by omega
  · obtain ⟨y, hy, hnegative, hsignificand, hexponent⟩ := exists_finite x.negative
      (m := x.significand + 1) (q := x.exponent) hnext hge hle fun hexp =>
        (leadingWeight_le_significand hexp).trans (Nat.le_succ _)
    refine .inr ⟨y, hy, hnegative, ?_⟩
    rw [magnitude, magnitude, stepAbove, hsignificand, hexponent]
    push_cast
    ring
  · obtain hexp | hexp := hle.lt_or_eq
    · obtain ⟨y, hy, hnegative, hsignificand, hexponent⟩ := exists_finite x.negative
        (m := leadingWeight) (q := x.exponent + 1) (by decide) (by omega) (by omega) fun _ => le_rfl
      refine .inr ⟨y, hy, hnegative, ?_⟩
      have hsig : (x.significand : ℚ) = 2 * leadingWeight - 1 := by
        rw [eq_sub_iff_add_eq]
        exact_mod_cast hnext
      rw [magnitude, magnitude, stepAbove, hsignificand, hexponent, hsig, two_zpow_succ]
      ring
    · exact .inl ⟨hnext, hexp⟩

/-! ## Between the midpoints -/

section

variable {x y : Binary64} {v : ℚ}

theorem nears_iff : x.Nears v ↔
    x.magnitude - x.stepBelow / 2 ≤ v ∧ v ≤ x.magnitude + x.stepAbove / 2 ∧
      (v = x.magnitude - x.stepBelow / 2 ∨ v = x.magnitude + x.stepAbove / 2 →
        x.significand % 2 = 0) := by
  have hlow : (4 * (x.significand : ℚ) - x.gapBelow) * 2 ^ (x.exponent - 2) =
      x.magnitude - x.stepBelow / 2 := by
    rw [two_zpow_sub_two, magnitude, stepBelow]
    ring
  have hhigh : (4 * (x.significand : ℚ) + 2) * 2 ^ (x.exponent - 2) =
      x.magnitude + x.stepAbove / 2 := by
    rw [two_zpow_sub_two, magnitude, stepAbove]
    ring
  rw [Nears, hlow, hhigh]

/-- What is between the midpoints is nearer to the number than to any other one. -/
theorem nearest_of_nears (h : x.Nears v) (y : Binary64) : |v - x.magnitude| ≤ |v - y.magnitude| ∧
    (y.magnitude ≠ x.magnitude → |v - y.magnitude| = |v - x.magnitude| → x.significand % 2 = 0) := by
  obtain ⟨hlow, hhigh, heven⟩ := nears_iff.mp h
  have habove := x.stepAbove_pos
  have hbelow := x.stepBelow_pos
  obtain hlt | heq | hgt := lt_trichotomy y.magnitude x.magnitude
  · have hy := below_of_lt hlt
    rw [abs_of_nonneg (by linarith : 0 ≤ v - y.magnitude)]
    refine ⟨abs_le.mpr ⟨by linarith, by linarith⟩, fun _ htie => heven (.inl ?_)⟩
    obtain habs | habs := abs_choice (v - x.magnitude) <;> rw [habs] at htie <;> linarith
  · exact ⟨by rw [heq], fun hne => absurd heq hne⟩
  · have hy := above_of_lt hgt
    rw [abs_of_nonpos (by linarith : v - y.magnitude ≤ 0)]
    refine ⟨abs_le.mpr ⟨by linarith, by linarith⟩, fun _ htie => heven (.inr ?_)⟩
    obtain habs | habs := abs_choice (v - x.magnitude) <;> rw [habs] at htie <;> linarith

theorem limit_eq : limit = (2 * leadingWeight - 1 / 2) * 2 ^ (971 : ℤ) := by
  have hweight : (leadingWeight : ℚ) = 2 ^ 52 := by norm_num [leadingWeight]
  have hpow : (2 : ℚ) ^ 1024 = 2 ^ 54 * 2 ^ 970 := by rw [← pow_add]
  have hpow' : (2 : ℚ) ^ (971 : ℤ) = 2 * 2 ^ 970 := by
    rw [← pow_succ']
    rfl
  rw [limit, hweight, hpow, hpow']
  generalize (2 : ℚ) ^ 970 = unit
  ring

theorem lt_limit_of_nears (hx : x.IsFinite) (h : x.Nears v) : v < limit := by
  obtain ⟨-, hhigh, heven⟩ := nears_iff.mp h
  have hsig : (x.significand : ℚ) + 1 ≤ 2 * leadingWeight := by exact_mod_cast x.significand_lt
  have hpos := x.stepAbove_pos
  have hbound : x.magnitude + x.stepAbove / 2 ≤ (2 * leadingWeight - 1 / 2) * x.stepAbove := by
    rw [magnitude, ← stepAbove]
    nlinarith
  have hlarge : (2 * (leadingWeight : ℚ) - 1 / 2) * x.stepAbove ≤
      (2 * leadingWeight - 1 / 2) * 2 ^ (971 : ℤ) :=
    mul_le_mul_of_nonneg_left (zpow_le_zpow_right₀ one_le_two (exponent_le hx))
      (by norm_num [leadingWeight])
  rw [limit_eq]
  refine lt_of_le_of_ne (hhigh.trans (hbound.trans hlarge)) fun hv => ?_
  -- Only the greatest finite number comes so far, and its significand is odd.
  have hmost : x.significand + 1 = 2 * leadingWeight := by
    have heq : ((x.significand : ℚ) + 1) * x.stepAbove = 2 * leadingWeight * x.stepAbove := by
      rw [magnitude, ← stepAbove] at hhigh hbound
      linarith
    exact_mod_cast mul_right_cancel₀ hpos.ne' heq
  have hparity := heven (.inr (by linarith))
  simp only [leadingWeight] at hmost
  omega

theorem pos_of_nears (hzero : x.significand ≠ 0) (h : x.Nears v) : 0 < v := by
  have hsig : (1 : ℚ) ≤ x.significand := by exact_mod_cast Nat.one_le_iff_ne_zero.mpr hzero
  have hgap := x.gapBelow_le
  refine lt_of_lt_of_le (mul_pos ?_ (by positivity)) h.1
  linarith

/-- What no number of its sign is nearer to is between the midpoints. -/
theorem nears_of_nearest (hx : x.IsFinite) (hzero : x.significand ≠ 0) (hv : v < limit)
    (h : ∀ y : Binary64, y.IsFinite → y.negative = x.negative →
      |v - x.magnitude| ≤ |v - y.magnitude| ∧ (y.magnitude ≠ x.magnitude →
        |v - y.magnitude| = |v - x.magnitude| → x.significand % 2 = 0)) : x.Nears v := by
  have habove := x.stepAbove_pos
  have hbelow := x.stepBelow_pos
  obtain ⟨y, hy, hsign, hlower⟩ := exists_below hx hzero
  obtain ⟨hnearest, heven⟩ := h y hy hsign
  rw [hlower] at hnearest heven
  have hlow : x.magnitude - x.stepBelow / 2 ≤ v := by
    by_contra hlt
    rw [abs_of_nonpos (by linarith : v - x.magnitude ≤ 0), le_abs] at hnearest
    obtain hnearest | hnearest := hnearest <;> linarith
  have hevenLow (htie : v = x.magnitude - x.stepBelow / 2) : x.significand % 2 = 0 := by
    refine heven (by linarith) ?_
    rw [abs_of_nonneg (by linarith), abs_of_nonpos (by linarith)]
    linarith
  have hhigh : v ≤ x.magnitude + x.stepAbove / 2 ∧
      (v = x.magnitude + x.stepAbove / 2 → x.significand % 2 = 0) := by
    obtain ⟨hmost, hexp⟩ | ⟨z, hz, hsign', hupper⟩ := exists_above hx
    · have hsig : (x.significand : ℚ) = 2 * leadingWeight - 1 := by
        rw [eq_sub_iff_add_eq]
        exact_mod_cast hmost
      have hlimit : x.magnitude + x.stepAbove / 2 = limit := by
        rw [limit_eq, magnitude, stepAbove, hexp, hsig]
        ring
      rw [hlimit]
      exact ⟨hv.le, fun htie => absurd htie hv.ne⟩
    · obtain ⟨hnearest', heven'⟩ := h z hz hsign'
      rw [hupper] at hnearest' heven'
      constructor
      · by_contra hlt
        rw [abs_of_nonneg (by linarith : 0 ≤ v - x.magnitude), le_abs] at hnearest'
        obtain hnearest' | hnearest' := hnearest' <;> linarith
      · intro htie
        refine heven' (by linarith) ?_
        rw [abs_of_nonpos (by linarith), abs_of_nonneg (by linarith)]
        linarith
  exact nears_iff.mpr ⟨hlow, hhigh.1, fun htie => htie.elim hevenLow hhigh.2⟩

/-- To be rounded to a number other than zero is to be between the midpoints around it. -/
theorem rounds_iff_nears (hx : x.IsFinite) (hzero : x.significand ≠ 0) (hv : 0 ≤ v) :
    Rounds (signed x.negative v) x ↔ x.Nears v := by
  have hself : |signed x.negative v - x.exact| = |v - x.magnitude| := abs_signed_sub _ _ _
  constructor
  · intro h
    have hwithin := h.within
    rw [abs_signed, abs_of_nonneg hv] at hwithin
    refine nears_of_nearest hx hzero hwithin fun y hy hsign => ?_
    have hnearest := h.nearest y hy
    have heven := h.even y hy
    rw [hself, exact, hsign, abs_signed_sub] at hnearest
    rw [hself, exact, hsign, abs_signed_sub] at heven
    refine ⟨hnearest, fun hne => heven fun heq => hne ?_⟩
    rw [exact] at heq
    cases hneg : x.negative <;> simpa [signed, hneg] using heq
  · intro h
    have hpos := pos_of_nears hzero h
    have hmagnitude : 0 < x.magnitude := by
      rw [magnitude]
      positivity
    have hdistance (y : Binary64) : |v - y.magnitude| ≤ |signed x.negative v - y.exact| :=
      abs_sub_le_signed hv y.magnitude_nonneg _ _
    refine ⟨hx, ?_, fun y _ => ?_, fun y _ hne htie => ?_⟩
    · rw [abs_signed, abs_of_nonneg hv]
      exact lt_limit_of_nears hx h
    · rw [hself]
      exact (nearest_of_nears h y).1.trans (hdistance y)
    · obtain ⟨hnearest, heven⟩ := nearest_of_nears h y
      rw [hself] at htie
      refine heven (fun heq => ?_) (le_antisymm ((hdistance y).trans htie.le) hnearest)
      -- A number of the same magnitude is the negative one, which is further off.
      have hsign : y.negative = !x.negative := by
        rw [Bool.eq_not]
        exact fun hsign => hne (by rw [exact, exact, hsign, heq])
      rw [exact, hsign, abs_signed_sub_not, heq, abs_of_nonneg (by positivity)] at htie
      obtain habs | habs := abs_choice (v - x.magnitude) <;> rw [habs] at htie <;> linarith

/-- What is rounded to zero is no further from it than half the least number. -/
theorem le_of_rounds_zero (hzero : x.significand = 0) (hv : 0 ≤ v)
    (h : Rounds (signed x.negative v) x) : v ≤ 2 ^ (-1075 : ℤ) := by
  obtain ⟨y, hy, hsign, hsignificand, hexponent⟩ := exists_finite x.negative (m := 1) (q := -1074)
    (by decide) le_rfl (by decide) fun hlt => absurd hlt (lt_irrefl _)
  have hhalf : y.magnitude = 2 * 2 ^ (-1075 : ℤ) := by
    rw [magnitude, hsignificand, hexponent, Nat.cast_one, one_mul, ← zpow_one_add₀ two_ne_zero]
    rfl
  have hx : x.magnitude = 0 := by rw [magnitude, hzero, Nat.cast_zero, zero_mul]
  have hnearest := h.nearest y hy
  rw [exact, exact, hsign, abs_signed_sub, abs_signed_sub, hx, sub_zero, abs_of_nonneg hv, hhalf,
    le_abs] at hnearest
  have hunit : (0 : ℚ) < 2 ^ (-1075 : ℤ) := by positivity
  obtain hnearest | hnearest := hnearest <;> linarith

/-- What is between the midpoints around a number other than zero is further from zero than that. -/
theorem lt_of_nears (hzero : x.significand ≠ 0) (h : x.Nears v) : 2 ^ (-1075 : ℤ) < v := by
  obtain ⟨hlow, -, heven⟩ := h
  have hone : (1 : ℚ) ≤ x.significand := by exact_mod_cast Nat.one_le_iff_ne_zero.mpr hzero
  have hgap := x.gapBelow_le
  have hunit : (2 : ℚ) ^ (-1076 : ℤ) ≤ 2 ^ (x.exponent - 2) :=
    zpow_le_zpow_right₀ one_le_two (by have := x.exponent_ge; omega)
  have hpos : (0 : ℚ) < 2 ^ (-1076 : ℤ) := by positivity
  have hhalf : (2 : ℚ) ^ (-1075 : ℤ) = 2 * 2 ^ (-1076 : ℤ) := by
    rw [← zpow_one_add₀ two_ne_zero]
    rfl
  have hle : (2 : ℚ) ^ (-1075 : ℤ) ≤ (4 * x.significand - x.gapBelow) * 2 ^ (x.exponent - 2) := by
    rw [hhalf]
    exact mul_le_mul (by linarith) hunit hpos.le (by linarith)
  refine lt_of_le_of_ne (hle.trans hlow) fun hv => ?_
  -- The least number is odd, so that its lower midpoint is rounded to zero.
  have hparity := heven (.inl (le_antisymm (hv ▸ hle) hlow))
  have htwo : (2 : ℚ) ≤ x.significand := by
    exact_mod_cast (by omega : 2 ≤ x.significand)
  nlinarith

/-- Of each sign there is one number that a rational number is rounded to. -/
theorem eq_of_rounds (hv : 0 ≤ v) (hx : Rounds (signed x.negative v) x)
    (hy : Rounds (signed x.negative v) y) (hsign : y.negative = x.negative) : x = y := by
  have hquotient : ((v.num.toNat : ℕ) : ℚ) / (v.den : ℕ) = v := by
    have hnum : ((v.num.toNat : ℕ) : ℤ) = v.num := Int.toNat_of_nonneg (Rat.num_nonneg.mpr hv)
    rw [← Int.cast_natCast, hnum, Rat.num_div_den]
  by_cases hx0 : x.significand = 0 <;> by_cases hy0 : y.significand = 0
  · rw [← nearest_zero hx0 0, ← nearest_zero hy0 0, hsign]
  · have hle := le_of_rounds_zero hx0 hv hx
    rw [← hsign, rounds_iff_nears hy.finite hy0 hv] at hy
    exact absurd (lt_of_nears hy0 hy) (not_lt.mpr hle)
  · rw [← hsign] at hy
    have hle := le_of_rounds_zero hy0 hv hy
    rw [rounds_iff_nears hx.finite hx0 hv] at hx
    exact absurd (lt_of_nears hx0 hx) (not_lt.mpr hle)
  · have hxv := (rounds_iff_nears hx.finite hx0 hv).mp hx
    have hyv := (rounds_iff_nears hy.finite hy0 hv).mp (hsign ▸ hy)
    have hread := ofQuotient?_of_nears hx.finite hx0 v.den_pos (hquotient.symm ▸ hxv)
    have hread' := ofQuotient?_of_nears hy.finite hy0 v.den_pos (hquotient.symm ▸ hyv)
    rw [hsign, hread] at hread'
    exact Option.some.inj hread'

end

end JsonWriter.Binary64
