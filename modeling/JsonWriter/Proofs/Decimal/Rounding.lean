import JsonWriter.Decimal.Binary64
import Mathlib.Algebra.Order.Field.Power
import Mathlib.Data.Nat.Log
import Mathlib.Data.Rat.Cast.Order
import Mathlib.Tactic.FieldSimp
import Mathlib.Tactic.Linarith
import Mathlib.Tactic.Positivity
import Mathlib.Tactic.Ring

/-!
# Rounding to the nearest number

A quotient between the midpoints to the two neighbours of a finite number is rounded to that number,
a midpoint included if the significand is even. Main statement: `ofQuotient?_of_nears`.
-/

namespace JsonWriter

/-- A power with an integer exponent as a quotient of two powers. -/
theorem zpow_eq_div (b : ℚ) (q : ℤ) : b ^ q = b ^ q.toNat / b ^ (-q).toNat := by
  obtain ⟨n, rfl | rfl⟩ := q.eq_nat_or_neg
  · simp
  · simp

theorem cast_shiftLeft (a n : ℕ) : ((a <<< n : ℕ) : ℚ) = a * 2 ^ n := by
  rw [Nat.shiftLeft_eq]
  push_cast
  rfl

namespace Binary64

/-! ## Rounding a quotient to a whole number -/

/-- A quotient at most a half from a whole number is rounded to it, and to the even one of two. -/
theorem roundQuotient_eq {num den n : ℕ} (hden : 0 < den) (hlow : 2 * n * den ≤ 2 * num + den)
    (hhigh : 2 * num ≤ 2 * n * den + den)
    (htie : 2 * n * den = 2 * num + den ∨ 2 * num = 2 * n * den + den → n % 2 = 0) :
    roundQuotient num den = n := by
  have hnum := Nat.div_add_mod num den
  have hr := Nat.mod_lt num hden
  simp only [roundQuotient]
  generalize num / den = d at hnum ⊢
  generalize num % den = r at hnum hr ⊢
  subst hnum
  split
  · next h =>
    have h1 : n < d + 1 := by nlinarith
    have h2 : d < n + 1 := by nlinarith
    omega
  · split
    · next h =>
      have h1 : n < d + 2 := by nlinarith
      have h2 : d < n := by nlinarith
      omega
    · next h1 h2 =>
      have hhalf : 2 * r = den := by omega
      have hle : n < d + 2 := by nlinarith
      have hge : d < n + 1 := by nlinarith
      obtain rfl | rfl : n = d ∨ n = d + 1 := by omega
      · have heven := htie (.inr (by rw [← hhalf]; ring))
        omega
      · have heven := htie (.inl (by rw [← hhalf]; ring))
        omega

theorem roundQuotient_shift {num den n : ℕ} (hden : 0 < den) {q : ℤ}
    (hlow : ((n : ℚ) - 1 / 2) * 2 ^ q ≤ num / den) (hhigh : (num / den : ℚ) ≤ (n + 1 / 2) * 2 ^ q)
    (htie : (num / den : ℚ) = (n - 1 / 2) * 2 ^ q ∨ (num / den : ℚ) = (n + 1 / 2) * 2 ^ q →
      n % 2 = 0) :
    roundQuotient (num <<< (-q).toNat) (den <<< q.toNat) = n := by
  have hd : (0 : ℚ) < den := by exact_mod_cast hden
  have hp : (0 : ℚ) < 2 ^ q.toNat := by positivity
  have hm : (0 : ℚ) < 2 ^ (-q).toNat := by positivity
  rw [zpow_eq_div 2 q] at hlow hhigh htie
  have hlow' : 2 * (n : ℚ) * (den * 2 ^ q.toNat) ≤ 2 * (num * 2 ^ (-q).toNat) + den * 2 ^ q.toNat := by
    rw [← mul_div_assoc, div_le_div_iff₀ hm hd] at hlow
    linarith
  have hhigh' : 2 * ((num : ℚ) * 2 ^ (-q).toNat) ≤ 2 * n * (den * 2 ^ q.toNat) + den * 2 ^ q.toNat := by
    rw [← mul_div_assoc, div_le_div_iff₀ hd hm] at hhigh
    linarith
  rw [← cast_shiftLeft, ← cast_shiftLeft] at hlow' hhigh'
  refine roundQuotient_eq ?_ (by exact_mod_cast hlow') (by exact_mod_cast hhigh') fun h => htie ?_
  · rw [Nat.shiftLeft_eq]
    positivity
  · rw [← mul_div_assoc, ← mul_div_assoc, div_eq_div_iff hd.ne' hm.ne', div_eq_div_iff hd.ne' hm.ne']
    obtain h | h := h
    · left
      have h' : 2 * (n : ℚ) * ((den <<< q.toNat : ℕ) : ℚ) =
          2 * ((num <<< (-q).toNat : ℕ) : ℚ) + ((den <<< q.toNat : ℕ) : ℚ) := by exact_mod_cast h
      rw [cast_shiftLeft, cast_shiftLeft] at h'
      linarith
    · right
      have h' : 2 * ((num <<< (-q).toNat : ℕ) : ℚ) =
          2 * (n : ℚ) * ((den <<< q.toNat : ℕ) : ℚ) + ((den <<< q.toNat : ℕ) : ℚ) := by
        exact_mod_cast h
      rw [cast_shiftLeft, cast_shiftLeft] at h'
      linarith

/-! ## The exponent -/

theorem shiftLeft_le_iff {num den : ℕ} (hden : 0 < den) (t : ℤ) :
    den <<< t.toNat ≤ num <<< (-t).toNat ↔ (2 : ℚ) ^ t ≤ num / den := by
  have hd : (0 : ℚ) < den := by exact_mod_cast hden
  have hm : (0 : ℚ) < 2 ^ (-t).toNat := by positivity
  rw [zpow_eq_div 2 t, div_le_div_iff₀ hm hd, ← @Nat.cast_le ℚ, cast_shiftLeft, cast_shiftLeft,
    mul_comm (den : ℚ)]

/-- A quotient lies between two powers of two that the lengths of its parts give. -/
theorem quotient_bounds {num den : ℕ} (hnum : num ≠ 0) (hden : den ≠ 0) :
    (2 : ℚ) ^ ((num.log2 : ℤ) - den.log2 - 1) < num / den ∧
      (num / den : ℚ) < 2 ^ ((num.log2 : ℤ) - den.log2 + 1) := by
  have hd : (0 : ℚ) < den := by exact_mod_cast Nat.pos_of_ne_zero hden
  have hlow (n : ℕ) (h : n ≠ 0) : (2 : ℚ) ^ (n.log2 : ℤ) ≤ n := by
    rw [zpow_natCast]
    exact_mod_cast Nat.log2_self_le h
  have hhigh (n : ℕ) : (n : ℚ) < 2 ^ ((n.log2 : ℤ) + 1) := by
    rw [← Nat.cast_succ, zpow_natCast]
    exact_mod_cast Nat.lt_log2_self
  constructor
  · rw [lt_div_iff₀ hd]
    calc (2 : ℚ) ^ ((num.log2 : ℤ) - den.log2 - 1) * den
        < 2 ^ ((num.log2 : ℤ) - den.log2 - 1) * 2 ^ ((den.log2 : ℤ) + 1) := by
          gcongr
          exact hhigh den
      _ = 2 ^ (num.log2 : ℤ) := by
          rw [← zpow_add₀ two_ne_zero]
          congr 1
          ring
      _ ≤ num := hlow num hnum
  · rw [div_lt_iff₀ hd]
    calc (num : ℚ) < 2 ^ ((num.log2 : ℤ) + 1) := hhigh num
      _ = 2 ^ ((num.log2 : ℤ) - den.log2 + 1) * 2 ^ (den.log2 : ℤ) := by
          rw [← zpow_add₀ two_ne_zero]
          congr 1
          ring
      _ ≤ 2 ^ ((num.log2 : ℤ) - den.log2 + 1) * den := by
          gcongr
          exact hlow den hden

theorem quotientExponent_spec {num den : ℕ} (hnum : num ≠ 0) (hden : den ≠ 0) :
    -1074 ≤ quotientExponent num den ∧ (num / den : ℚ) < 2 ^ (quotientExponent num den + 53) ∧
      (quotientExponent num den = -1074 ∨ (2 : ℚ) ^ (quotientExponent num den + 52) ≤ num / den) := by
  obtain ⟨hlow, hhigh⟩ := quotient_bounds hnum hden
  have hfits := @shiftLeft_le_iff num den (Nat.pos_of_ne_zero hden)
    ((num.log2 : ℤ) - den.log2 - 52 + 52)
  -- Before the least exponent comes in, the significand has 53 bits.
  have hexact : ∃ e : ℤ, (2 : ℚ) ^ (e + 52) ≤ num / den ∧ (num / den : ℚ) < 2 ^ (e + 53) ∧
      quotientExponent num den = max e (-1074) := by
    simp only [quotientExponent, hfits]
    split
    · next h =>
      refine ⟨_, h, ?_, rfl⟩
      rwa [show (num.log2 : ℤ) - den.log2 - 52 + 53 = (num.log2 : ℤ) - den.log2 + 1 by ring]
    · next h =>
      refine ⟨_, ?_, ?_, rfl⟩
      · rw [show (num.log2 : ℤ) - den.log2 - 52 - 1 + 52 = (num.log2 : ℤ) - den.log2 - 1 by ring]
        exact hlow.le
      · rw [show (num.log2 : ℤ) - den.log2 - 52 - 1 + 53 = (num.log2 : ℤ) - den.log2 - 52 + 52 by ring]
        exact lt_of_not_ge h
  obtain ⟨e, he, he', hq⟩ := hexact
  rw [hq]
  refine ⟨le_max_right _ _, he'.trans_le ?_, ?_⟩
  · exact zpow_le_zpow_right₀ one_le_two (by omega)
  · obtain h | h := le_total e (-1074)
    · exact .inl (max_eq_right h)
    · rw [max_eq_left h]
      exact .inr he

/-- Only one exponent gives a significand of at most 53 bits, and of just as many if it is not the
least one. -/
theorem quotientExponent_eq {num den : ℕ} (hnum : num ≠ 0) (hden : den ≠ 0) {q : ℤ} (hq : -1074 ≤ q)
    (hhigh : (num / den : ℚ) < 2 ^ (q + 53)) (hlow : q = -1074 ∨ (2 : ℚ) ^ (q + 52) ≤ num / den) :
    quotientExponent num den = q := by
  obtain ⟨hq', hhigh', hlow'⟩ := quotientExponent_spec hnum hden
  have hle : quotientExponent num den ≤ q := by
    obtain h | h := hlow'
    · omega
    · have := (zpow_lt_zpow_iff_right₀ one_lt_two).mp (h.trans_lt hhigh)
      omega
  have hge : q ≤ quotientExponent num den := by
    obtain h | h := hlow
    · omega
    · have := (zpow_lt_zpow_iff_right₀ one_lt_two).mp (h.trans_lt hhigh')
      omega
  exact le_antisymm hle hge

/-! ## Bits -/

theorem toNat_bits (x : Binary64) :
    x.bits.toNat = (if x.negative then signWeight else 0) + x.exponentField * leadingWeight +
      x.fraction := by
  have hlt := x.bits.toNat_lt
  simp only [negative, exponentField, fraction, signWeight, leadingWeight, beq_iff_eq]
  split <;> omega

/-- The exponent and the significand of a number side by side are its bits without the sign. -/
theorem magnitude_eq (x : Binary64) :
    (x.exponent + 1074).toNat * leadingWeight + x.significand =
      x.exponentField * leadingWeight + x.fraction := by
  simp only [exponent, significand]
  split
  · next h => simp [h]
  · next h =>
    obtain ⟨k, hk⟩ := Nat.exists_eq_succ_of_ne_zero h
    have hexp : ((k.succ : ℤ) - 1075 + 1074).toNat = k := by omega
    rw [hk, hexp, Nat.succ_mul, Nat.add_assoc]

theorem fraction_lt (x : Binary64) : x.fraction < leadingWeight := Nat.mod_lt _ (by decide)

theorem significand_lt (x : Binary64) : x.significand < 2 * leadingWeight := by
  have := x.fraction_lt
  rw [significand]
  split <;> omega

theorem exponent_ge (x : Binary64) : -1074 ≤ x.exponent := by
  rw [exponent]
  split <;> omega

theorem leadingWeight_le_significand {x : Binary64} (h : -1074 < x.exponent) :
    leadingWeight ≤ x.significand := by
  rw [exponent] at h
  rw [significand]
  split at h
  · omega
  · next hexp =>
    rw [if_neg hexp]
    omega

/-! ## The numbers nearest to a finite one -/

/-- How many quarters of a unit of the significand there are to the midpoint below. Just past a power
of two the neighbour below is nearer. -/
def gapBelow (x : Binary64) : ℕ :=
  if x.significand = leadingWeight ∧ -1074 < x.exponent then 1 else 2

theorem gapBelow_le (x : Binary64) : (x.gapBelow : ℚ) ≤ 2 := by
  rw [gapBelow]
  split <;> norm_num

/-- The magnitude `v` is between the midpoints around a finite number, or one of them if the
significand is even. -/
def Nears (x : Binary64) (v : ℚ) : Prop :=
  let low := (4 * (x.significand : ℚ) - x.gapBelow) * 2 ^ (x.exponent - 2)
  let high := (4 * (x.significand : ℚ) + 2) * 2 ^ (x.exponent - 2)
  low ≤ v ∧ v ≤ high ∧ (v = low ∨ v = high → x.significand % 2 = 0)

theorem two_zpow_sub_two (q : ℤ) : (2 : ℚ) ^ (q - 2) = 2 ^ q / 4 := by
  rw [zpow_sub₀ two_ne_zero]
  norm_num

/-- The number keeps its exponent in rounding, unless the quotient is below the power of two that it
is. -/
theorem round_same {x : Binary64} {num den : ℕ} (hnum : num ≠ 0) (hden : 0 < den)
    (h : x.Nears (num / den)) (hlow : x.exponent = -1074 ∨ (2 : ℚ) ^ (x.exponent + 52) ≤ num / den) :
    quotientExponent num den = x.exponent ∧
      roundQuotient (num <<< (-x.exponent).toNat) (den <<< x.exponent.toNat) = x.significand := by
  obtain ⟨hge, hle, htie⟩ := h
  have hunit : (0 : ℚ) < 2 ^ x.exponent := by positivity
  have hgap := x.gapBelow_le
  have hmlt : (x.significand : ℚ) + 1 ≤ 2 ^ 53 := by exact_mod_cast x.significand_lt
  rw [two_zpow_sub_two] at hge hle htie
  refine ⟨quotientExponent_eq hnum hden.ne' x.exponent_ge ?_ hlow, roundQuotient_shift hden ?_ ?_ ?_⟩
  · rw [zpow_add₀ two_ne_zero]
    refine hle.trans_lt ?_
    norm_num at hmlt ⊢
    nlinarith
  · nlinarith
  · linarith
  · rintro (h | h)
    · refine htie (.inl (le_antisymm ?_ hge))
      nlinarith
    · refine htie (.inr ?_)
      linarith

theorem round_below {x : Binary64} {num den : ℕ} (hnum : num ≠ 0) (hden : 0 < den)
    (h : x.Nears (num / den)) (hexp : x.exponent ≠ -1074)
    (hhigh : (num / den : ℚ) < 2 ^ (x.exponent + 52)) :
    x.significand = leadingWeight ∧ quotientExponent num den = x.exponent - 1 ∧
      roundQuotient (num <<< (-(x.exponent - 1)).toNat) (den <<< (x.exponent - 1).toNat) =
        2 * leadingWeight := by
  obtain ⟨hge, -, -⟩ := h
  have hexp' : -1074 < x.exponent := lt_of_le_of_ne x.exponent_ge hexp.symm
  have hunit : (0 : ℚ) < 2 ^ x.exponent := by positivity
  have hhalf : (2 : ℚ) ^ (x.exponent - 1) = 2 ^ x.exponent / 2 := by
    rw [zpow_sub_one₀ two_ne_zero]
    rfl
  have hweight : (leadingWeight : ℚ) = 2 ^ 52 := by norm_num [leadingWeight]
  rw [two_zpow_sub_two] at hge
  have hhigh' : (num / den : ℚ) < 2 ^ x.exponent * 2 ^ 52 := by
    rw [zpow_add₀ two_ne_zero] at hhigh
    exact_mod_cast hhigh
  have hm : x.significand = leadingWeight := by
    refine le_antisymm (Nat.le_of_lt_succ ?_) (leadingWeight_le_significand hexp')
    have hgap := x.gapBelow_le
    have hlt : (x.significand : ℚ) < leadingWeight + 1 := by
      rw [hweight]
      nlinarith
    exact_mod_cast hlt
  have hgap : x.gapBelow = 1 := if_pos ⟨hm, hexp'⟩
  rw [hm, hgap, hweight] at hge
  push_cast at hge
  refine ⟨hm, quotientExponent_eq hnum hden.ne' (by omega) ?_ (.inr ?_), roundQuotient_shift hden ?_ ?_ ?_⟩
  · rw [show x.exponent - 1 + 53 = x.exponent + 52 by ring]
    exact hhigh
  · rw [zpow_add₀ two_ne_zero, hhalf]
    norm_num at hge ⊢
    linarith
  · push_cast
    rw [hweight, hhalf]
    linarith
  · push_cast
    rw [hweight, hhalf]
    nlinarith
  · exact fun _ => rfl

/-- What is between the midpoints around a finite number other than zero is rounded to it. -/
theorem ofQuotient?_of_nears {x : Binary64} (hx : x.IsFinite) (hzero : x.significand ≠ 0) {num den : ℕ}
    (hden : 0 < den) (h : x.Nears (num / den)) : ofQuotient? x.negative num den = some x := by
  have hnum : num ≠ 0 := by
    rintro rfl
    have hm : (1 : ℚ) ≤ x.significand := by exact_mod_cast Nat.one_le_iff_ne_zero.mpr hzero
    have hunit : (0 : ℚ) < 2 ^ (x.exponent - 2) := by positivity
    have hgap := x.gapBelow_le
    have hge := h.1
    rw [Nat.cast_zero, zero_div] at hge
    nlinarith
  have hround : (quotientExponent num den + 1074).toNat * leadingWeight +
      roundQuotient (num <<< (-quotientExponent num den).toNat)
        (den <<< (quotientExponent num den).toNat) =
      (x.exponent + 1074).toNat * leadingWeight + x.significand := by
    by_cases hcase : x.exponent = -1074 ∨ (2 : ℚ) ^ (x.exponent + 52) ≤ num / den
    · obtain ⟨hq, hm⟩ := round_same hnum hden h hcase
      rw [hq, hm]
    · simp only [not_or, not_le] at hcase
      obtain ⟨hm, hq, hround⟩ := round_below hnum hden h hcase.1 hcase.2
      have hge := x.exponent_ge
      have hexp : (x.exponent + 1074).toNat = (x.exponent - 1 + 1074).toNat + 1 := by omega
      rw [hq, hround, hm, hexp]
      ring
  have hfinite : x.exponentField * leadingWeight + x.fraction < 0x7FF * leadingWeight := by
    have hfraction := x.fraction_lt
    have hfield : x.exponentField < 0x7FF :=
      lt_of_le_of_ne (Nat.le_of_lt_succ (Nat.mod_lt _ (by decide))) hx
    nlinarith
  simp only [ofQuotient?, if_neg hnum]
  rw [hround, magnitude_eq, if_pos hfinite, ← add_assoc, ← toNat_bits, UInt64.ofNat_toNat]

end Binary64

end JsonWriter
