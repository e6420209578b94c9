import JsonWriter.Decimal.Shortest
import JsonWriter.Proofs.Decimal.Rounding

/-!
# The shortest decimal reads back

Wherever the scan over decimal grids stops, it stops at a point between the midpoints around the
binary number, and it stops in time: on the last grid the points are no further apart than a quarter
of a unit. Main statement: `nears_digits`.
-/

namespace JsonWriter.Decimal.Shortest

theorem cast_tenTo (n : ℕ) : (tenTo n : ℚ) = 10 ^ n := by
  rw [tenTo, Nat.pow_eq]
  push_cast
  rfl

namespace Grid

variable (g : Grid)

/-- The common unit of the points of the grid and of the quarters of the number. -/
def unit : ℚ := 10 ^ (-g.k).toNat * 2 ^ (2 - g.q).toNat

theorem unit_pos : 0 < g.unit := by
  rw [unit]
  positivity

theorem cast_point : (g.point : ℚ) = g.unit * 10 ^ g.k := by
  rw [point, cast_shiftLeft, cast_tenTo, unit, zpow_eq_div 10 g.k]
  field_simp

theorem cast_quarter : (g.quarter : ℚ) = g.unit * 2 ^ (g.q - 2) := by
  rw [quarter, cast_shiftLeft, cast_tenTo, unit, zpow_eq_div 2 (g.q - 2), neg_sub]
  field_simp

theorem lowerGap_le : g.lowerGap ≤ 2 := by
  rw [lowerGap]
  split <;> omega

theorem one_le_lowerGap : 1 ≤ g.lowerGap := by
  rw [lowerGap]
  split <;> omega

theorem mul_quarter_le_iff (c a : ℕ) :
    c * g.quarter ≤ a * g.point ↔ (c : ℚ) * 2 ^ (g.q - 2) ≤ a * 10 ^ g.k := by
  rw [← @Nat.cast_le ℚ, Nat.cast_mul, Nat.cast_mul, cast_point, cast_quarter, mul_left_comm,
    mul_left_comm (a : ℚ), mul_le_mul_iff_right₀ g.unit_pos]

theorem mul_point_le_iff (a c : ℕ) :
    a * g.point ≤ c * g.quarter ↔ (a : ℚ) * 10 ^ g.k ≤ c * 2 ^ (g.q - 2) := by
  rw [← @Nat.cast_le ℚ, Nat.cast_mul, Nat.cast_mul, cast_point, cast_quarter, mul_left_comm,
    mul_left_comm (c : ℚ), mul_le_mul_iff_right₀ g.unit_pos]

variable {g}

/-- A point reads back exactly if it is between the midpoints around the number. -/
theorem reads_iff_nears {x : Binary64} (hzero : x.significand ≠ 0) {k : ℤ} {a : ℕ} :
    (Grid.mk x.significand x.exponent k).Reads a ↔ x.Nears (a * 10 ^ k) := by
  have hgap : x.gapBelow ≤ 4 * x.significand := by
    have := lowerGap_le (Grid.mk x.significand x.exponent k)
    have hsame : (Grid.mk x.significand x.exponent k).lowerGap = x.gapBelow := rfl
    omega
  have hlow := mul_quarter_le_iff (Grid.mk x.significand x.exponent k)
    (4 * x.significand - x.gapBelow) a
  have hlow' := mul_point_le_iff (Grid.mk x.significand x.exponent k) a
    (4 * x.significand - x.gapBelow)
  have hhigh := mul_point_le_iff (Grid.mk x.significand x.exponent k) a (4 * x.significand + 2)
  have hhigh' := mul_quarter_le_iff (Grid.mk x.significand x.exponent k) (4 * x.significand + 2) a
  push_cast [hgap] at hlow hlow' hhigh hhigh'
  simp only [Reads]
  split
  · next heven =>
    refine ⟨fun h => ⟨hlow.mp h.1, hhigh.mp h.2, fun _ => heven⟩, ?_⟩
    rintro ⟨h, h', -⟩
    exact ⟨hlow.mpr h, hhigh.mpr h'⟩
  · next hodd =>
    constructor
    · rintro ⟨h, h'⟩
      refine ⟨hlow.mp h.le, hhigh.mp h'.le, ?_⟩
      rintro (hv | hv)
      · exact absurd (hlow'.mpr hv.le) (Nat.not_le.mpr h)
      · exact absurd (hhigh'.mpr hv.ge) (Nat.not_le.mpr h')
    · rintro ⟨h, h', htie⟩
      refine ⟨Nat.lt_of_not_le fun hle => hodd (htie (.inl ?_)), Nat.lt_of_not_le fun hle =>
        hodd (htie (.inr ?_))⟩
      · exact le_antisymm (hlow'.mp hle) h
      · exact le_antisymm h' (hhigh'.mp hle)

theorem reads_of_choose? {a : ℕ} (h : g.choose? = some a) : g.Reads a := by
  simp only [choose?] at h
  split at h
  · next hlow =>
    split at h
    · next hhigh =>
      split at h
      · exact Option.some.inj h ▸ hlow
      · split at h
        · exact Option.some.inj h ▸ hhigh
        · obtain rfl := Option.some.inj h
          obtain heven | hodd := Nat.mod_two_eq_zero_or_one g.below
          · rwa [heven, Nat.add_zero]
          · rwa [hodd]
    · exact Option.some.inj h ▸ hlow
  · split at h
    · next hhigh => exact Option.some.inj h ▸ hhigh
    · cases h

/-- If one of the two points around the number reads back, one of them is chosen. -/
theorem exists_choose?_of_reads (h : g.Reads g.below ∨ g.Reads (g.below + 1)) :
    ∃ a, g.choose? = some a := by
  simp only [choose?]
  split
  · split
    · split
      · exact ⟨_, rfl⟩
      · split <;> exact ⟨_, rfl⟩
    · exact ⟨_, rfl⟩
  · next hlow => exact ⟨_, if_pos (h.resolve_left hlow)⟩

/-- The number is between the two points around it. -/
theorem below_bounds (g : Grid) : g.below * g.point ≤ 4 * g.m * g.quarter ∧
    4 * g.m * g.quarter < (g.below + 1) * g.point := by
  have hpoint : 0 < g.point := by
    have hpos : (0 : ℚ) < g.point := by
      rw [g.cast_point]
      exact mul_pos g.unit_pos (by positivity)
    exact_mod_cast hpos
  refine ⟨Nat.div_mul_le_self _ _, ?_⟩
  rw [Nat.mul_comm (g.below + 1)]
  exact Nat.lt_mul_div_succ _ hpoint

/-- A grid whose points are no further apart than a quarter of a unit has a point that reads back. -/
theorem exists_choose? (hm : g.m ≠ 0) (h : g.point ≤ g.quarter) : ∃ a, g.choose? = some a := by
  obtain ⟨hle, hlt⟩ := g.below_bounds
  have hgap := g.one_le_lowerGap
  have hlow : (4 * g.m - g.lowerGap) * g.quarter < g.below * g.point := by
    have hstep : (4 * g.m - g.lowerGap + 1) * g.quarter ≤ 4 * g.m * g.quarter :=
      Nat.mul_le_mul_right _ (by omega)
    nlinarith
  have hhigh : g.below * g.point < (4 * g.m + 2) * g.quarter := by nlinarith
  refine exists_choose?_of_reads (.inl ?_)
  simp only [Reads]
  split
  · exact ⟨hlow.le, hhigh.le⟩
  · exact ⟨hlow, hhigh⟩

end Grid

theorem ten_zpow_tenBelow_le (t : ℤ) : (10 : ℚ) ^ tenBelow t ≤ 2 ^ t := by
  rw [tenBelow]
  split
  · next h =>
    obtain ⟨n, rfl⟩ := Int.eq_ofNat_of_zero_le h
    -- Three powers of ten are less than ten powers of two.
    have hpow : (10 : ℚ) ^ (10 * (3 * n / 10)) ≤ 2 ^ (10 * n) := by
      calc (10 : ℚ) ^ (10 * (3 * n / 10)) ≤ 10 ^ (3 * n) := by
            exact pow_le_pow_right₀ (by norm_num) (by omega)
        _ = (10 ^ 3) ^ n := by rw [pow_mul]
        _ ≤ (2 ^ 10) ^ n := by gcongr; norm_num
        _ = 2 ^ (10 * n) := by rw [pow_mul]
    have hroot : (10 : ℚ) ^ (3 * n / 10) ≤ 2 ^ n := by
      refine le_of_pow_le_pow_left₀ (n := 10) (by norm_num) (by positivity) ?_
      rwa [← pow_mul, ← pow_mul, mul_comm (3 * n / 10), mul_comm n]
    exact_mod_cast hroot
  · next h =>
    obtain ⟨n, hn⟩ : ∃ n : ℕ, t / 3 = -n := ⟨(-(t / 3)).toNat, by omega⟩
    calc (10 : ℚ) ^ (t / 3) = (10 ^ n)⁻¹ := by rw [hn, zpow_neg, zpow_natCast]
      _ ≤ (8 ^ n)⁻¹ := by
          gcongr
          norm_num
      _ = 2 ^ (3 * (t / 3)) := by
          rw [hn, zpow_mul, zpow_neg, zpow_natCast]
          norm_num
      _ ≤ 2 ^ t := zpow_le_zpow_right₀ one_le_two (by omega)

/-- The scan ends at a point that reads back, if there is one on a grid that it comes to. The grids
before have none. -/
theorem scan_reads {m : ℕ} {q : ℤ} {steps : ℕ} {k : ℤ}
    (h : ∃ i < steps, ∃ a, (Grid.mk m q (k - i)).choose? = some a) :
    ∃ a k', scan m q steps k = ⟨a, k'⟩ ∧ (Grid.mk m q k').Reads a ∧
      ∀ j, k' < j → j ≤ k → (Grid.mk m q j).choose? = none := by
  induction steps generalizing k with
  | zero =>
    obtain ⟨i, hi, -⟩ := h
    omega
  | succ steps ih =>
    rw [scan]
    split
    · next a ha => exact ⟨a, k, rfl, Grid.reads_of_choose? ha, fun j hlt hle => by omega⟩
    · next hnone =>
      obtain ⟨i, hi, a, ha⟩ := h
      cases i with
      | zero =>
        rw [Nat.cast_zero, sub_zero, hnone] at ha
        cases ha
      | succ i =>
        have hrest : ∃ i < steps, ∃ a, (Grid.mk m q (k - 1 - i)).choose? = some a := by
          refine ⟨i, by omega, a, ?_⟩
          rwa [show k - 1 - (i : ℤ) = k - ((i + 1 : ℕ) : ℤ) by push_cast; ring]
        obtain ⟨a, k', hscan, hreads, hcoarser⟩ := ih hrest
        refine ⟨a, k', hscan, hreads, fun j hlt hle => ?_⟩
        obtain rfl | hj := eq_or_ne j k
        · exact hnone
        · exact hcoarser j hlt (by omega)

theorem digits_reads {m : ℕ} (hm : m ≠ 0) (q : ℤ) :
    ∃ a k, digits m q = ⟨a, k⟩ ∧ (Grid.mk m q k).Reads a ∧
      ∀ j, k < j → j ≤ tenAbove (m.log2 + 1 + q) → (Grid.mk m q j).choose? = none := by
  have htop : tenBelow (q - 2) ≤ tenAbove (m.log2 + 1 + q) := by
    simp only [tenAbove, tenBelow]
    split <;> split <;> omega
  -- The last grid of the scan is the one of `tenBelow`.
  refine scan_reads ⟨(tenAbove (m.log2 + 1 + q) - tenBelow (q - 2)).toNat, by omega, ?_⟩
  rw [Int.toNat_of_nonneg (by omega), sub_sub_cancel]
  refine Grid.exists_choose? hm ?_
  have hle := Grid.mul_point_le_iff ⟨m, q, tenBelow (q - 2)⟩ 1 1
  rw [one_mul, one_mul, Nat.cast_one, one_mul, one_mul] at hle
  exact hle.mpr (ten_zpow_tenBelow_le (q - 2))

/-- The shortest decimal of a number other than zero is between the midpoints around it. -/
theorem nears_digits {x : Binary64} (hzero : x.significand ≠ 0) :
    x.Nears ((digits x.significand x.exponent).significand *
      10 ^ (digits x.significand x.exponent).exponent) := by
  obtain ⟨a, k, hd, hreads, -⟩ := digits_reads hzero x.exponent
  rw [hd]
  exact (Grid.reads_iff_nears hzero).mp hreads

end JsonWriter.Decimal.Shortest
