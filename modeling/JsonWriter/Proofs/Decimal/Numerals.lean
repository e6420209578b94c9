import JsonWriter.Proofs.Decimal.Shortest
import JsonWriter.Proofs.Json.Grammar

/-!
# Numerals spell their numbers

Whole numbers are written with all their digits, floating ones by a layout of the shortest decimal that
reads back. Main statements: `exists_parts_ofInt` and `exists_parts_finiteText`.
-/

namespace JsonWriter

open Json (AllDigits IsDigit Parts Exponent)

/-! ## Digits -/

namespace Decimal

theorem digitsOnto_eq (n : ℕ) (written : Text) : digitsOnto n written = ofNat n ++ written := by
  induction n using Nat.strongRecOn generalizing written with
  | ind n ih =>
    obtain h | h := Nat.lt_or_ge n 10
    · have hn : ofNat n = [digit n] := by rw [ofNat, digitsOnto, if_pos h]
      rw [digitsOnto, if_pos h, hn, List.singleton_append]
    · have hn : ofNat n = digitsOnto (n / 10) [digit n] := by rw [ofNat, digitsOnto, if_neg (by omega)]
      rw [digitsOnto, if_neg (by omega), ih (n / 10) (by omega), hn, ih (n / 10) (by omega)]
      simp

theorem ofNat_of_lt {n : ℕ} (h : n < 10) : ofNat n = [digit n] := by
  rw [ofNat, digitsOnto, if_pos h]

theorem ofNat_of_le {n : ℕ} (h : 10 ≤ n) : ofNat n = ofNat (n / 10) ++ [digit n] := by
  rw [ofNat, digitsOnto, if_neg (by omega), digitsOnto_eq]

theorem digit_val (n : ℕ) : (digit n).val = 0x30 + n % 10 := CodePoint.val_ofNat (by omega)

theorem isDigit_digit (n : ℕ) : IsDigit (digit n) := by
  rw [IsDigit, digit_val]
  omega

theorem ofNat_ne_nil (n : ℕ) : ofNat n ≠ [] := by
  obtain h | h := Nat.lt_or_ge n 10
  · simp [ofNat_of_lt h]
  · simp [ofNat_of_le h]

theorem allDigits_ofNat (n : ℕ) : AllDigits (ofNat n) := by
  induction n using Nat.strongRecOn with
  | ind n ih =>
    intro c hc
    obtain h | h := Nat.lt_or_ge n 10
    · rw [ofNat_of_lt h, List.mem_singleton] at hc
      exact hc ▸ isDigit_digit n
    · rw [ofNat_of_le h, List.mem_append, List.mem_singleton] at hc
      obtain hc | rfl := hc
      · exact ih (n / 10) (by omega) c hc
      · exact isDigit_digit n

/-- The first digit of a number other than zero is not zero. -/
theorem head?_ofNat {n : ℕ} (hn : n ≠ 0) : (ofNat n).head? ≠ some (.ofChar '0') := by
  induction n using Nat.strongRecOn with
  | ind n ih =>
    obtain h | h := Nat.lt_or_ge n 10
    · rw [ofNat_of_lt h]
      intro hd
      have hval : (digit n).val = 0x30 := congrArg CodePoint.val (Option.some.inj hd)
      rw [digit_val] at hval
      omega
    · rw [ofNat_of_le h, List.head?_append_of_ne_nil _ (ofNat_ne_nil _)]
      exact ih (n / 10) (by omega) (by omega)

/-- A number has the digits of a power of ten that it is at least, and no more. -/
theorem length_ofNat_bounds {n : ℕ} (hn : n ≠ 0) :
    10 ^ ((ofNat n).length - 1) ≤ n ∧ n < 10 ^ (ofNat n).length := by
  induction n using Nat.strongRecOn with
  | ind n ih =>
    obtain h | h := Nat.lt_or_ge n 10
    · simp only [ofNat_of_lt h, List.length_singleton, Nat.sub_self, pow_zero, pow_one]
      omega
    · obtain ⟨hlow, hhigh⟩ := ih (n / 10) (by omega) (by omega)
      have hlen : (ofNat (n / 10)).length ≠ 0 := by simp [ofNat_ne_nil]
      obtain ⟨k, hk⟩ := Nat.exists_eq_succ_of_ne_zero hlen
      rw [hk, Nat.succ_eq_add_one] at hlow hhigh
      simp only [ofNat_of_le h, List.length_append, List.length_singleton, hk, Nat.succ_eq_add_one,
        Nat.add_sub_cancel, pow_succ] at hlow hhigh ⊢
      omega

end Decimal

namespace Json

theorem foldl_digits (n : ℕ) (ds : List ℕ) :
    ds.foldl (fun n d => 10 * n + d) n = n * 10 ^ ds.length + Numeral.ofDigits ds := by
  induction ds generalizing n with
  | nil => simp [Numeral.ofDigits]
  | cons d ds ih =>
    rw [Numeral.ofDigits, List.foldl_cons, List.foldl_cons, ih, ih (10 * 0 + d), List.length_cons]
    ring

theorem ofDigits_append (a b : Text) : ofDigits (a ++ b) = ofDigits a * 10 ^ b.length + ofDigits b := by
  rw [ofDigits, Numeral.ofDigits, List.map_append, List.foldl_append, foldl_digits, List.length_map]
  rfl

theorem ofDigits_ofNat (n : ℕ) : ofDigits (Decimal.ofNat n) = n := by
  have hdigit (n : ℕ) : ofDigits [Decimal.digit n] = n % 10 := by
    simp [ofDigits, Numeral.ofDigits, Decimal.digit_val]
  induction n using Nat.strongRecOn with
  | ind n ih =>
    obtain h | h := Nat.lt_or_ge n 10
    · rw [Decimal.ofNat_of_lt h, hdigit]
      omega
    · rw [Decimal.ofNat_of_le h, ofDigits_append, ih (n / 10) (by omega), hdigit,
        List.length_singleton]
      omega

theorem ofDigits_zeros (n : ℤ) : ofDigits (FloatLayout.zeros n) = 0 := by
  rw [FloatLayout.zeros]
  induction n.toNat with
  | zero => rfl
  | succ k ih =>
    have hzero : ofDigits [CodePoint.ofChar '0'] = 0 := rfl
    rw [List.replicate_succ, ← List.singleton_append, ofDigits_append, ih, hzero, zero_mul]

theorem ofDigits_zero : ofDigits [CodePoint.ofChar '0'] = 0 := rfl

theorem allDigits_zero : AllDigits [CodePoint.ofChar '0'] := by decide

theorem allDigits_zeros (n : ℤ) : AllDigits (FloatLayout.zeros n) := by
  intro c hc
  rw [List.eq_of_mem_replicate hc]
  decide

/-! ## Whole numbers -/

end Json

/-- The text of a whole number is a number without fraction and exponent. -/
theorem exists_parts_ofInt (n : ℤ) :
    ∃ p : Parts, p.WellFormed ∧ p.text = Decimal.ofInt n ∧ p.value = .int n := by
  refine ⟨⟨decide (n < 0), Decimal.ofNat n.natAbs, [], none⟩, ?_, ?_, ?_⟩
  · refine ⟨Decimal.ofNat_ne_nil _, Decimal.allDigits_ofNat _, fun h => ?_,
      List.forall_mem_nil _, by simp⟩
    obtain h0 | h0 := Nat.eq_zero_or_pos n.natAbs
    · simp [h0, Decimal.ofNat_of_lt]
    · exact absurd h (Decimal.head?_ofNat (by omega))
  · by_cases h : n < 0 <;> simp [Parts.text, Parts.unsigned, Decimal.ofInt, h]
  · simp only [Parts.value, and_self, ↓reduceIte, Json.ofDigits_ofNat, Numeral.withSign,
      decide_eq_true_eq]
    congr 1
    split <;> omega

/-! ## Floating numbers -/

/-- The power of ten that the first digit of a decimal stands for. -/
def Decimal.leading (d : Decimal) : ℤ := d.exponent + (Decimal.ofNat d.significand).length - 1

namespace FloatLayout

/-- The number `p` stands for a decimal, and it is not written as a whole one. -/
structure Writes (p : Parts) (d : Decimal) : Prop where
  wellFormed : p.WellFormed
  floating : ¬ (p.fraction = [] ∧ p.exponent? = none)
  magnitude : (p.significand : ℚ) * 10 ^ p.power = d.significand * 10 ^ d.exponent

theorem exponentText_eq (l : FloatLayout) (e : ℤ) :
    ∃ x : Exponent, x.WellFormed ∧ x.text = l.exponentText e ∧ x.value = e := by
  refine ⟨⟨false, some (decide (e < 0)), zeros (l.exponentDigits - (Decimal.ofNat e.natAbs).length) ++
    Decimal.ofNat e.natAbs⟩, ⟨?_, ?_⟩, ?_, ?_⟩
  · simp [Decimal.ofNat_ne_nil]
  · intro c hc
    obtain hc | hc := List.mem_append.mp hc
    · exact Json.allDigits_zeros _ c hc
    · exact Decimal.allDigits_ofNat _ c hc
  · simp [Exponent.text, exponentText, Exponent.sign]
  · simp only [Exponent.value, Option.getD_some, Json.ofDigits_append, Json.ofDigits_zeros, zero_mul,
      zero_add, Json.ofDigits_ofNat, Numeral.withSign, decide_eq_true_eq]
    split <;> omega

section

variable (l : FloatLayout) {d : Decimal} (negative : Bool)

/-- The first digit below one, after zeros. -/
theorem writes_below (z : ℤ) (hz : d.exponent + (Decimal.ofNat d.significand).length + z = 0)
    (hz0 : 0 ≤ z) :
    Writes ⟨negative, [.ofChar '0'], zeros z ++ Decimal.ofNat d.significand, none⟩ d := by
  refine ⟨⟨by simp, Json.allDigits_zero, by simp, ?_, by simp⟩, by simp [Decimal.ofNat_ne_nil], ?_⟩
  · exact List.forall_mem_append.mpr ⟨Json.allDigits_zeros z, Decimal.allDigits_ofNat _⟩
  · have hlength : (zeros z).length = z.toNat := List.length_replicate
    simp only [Parts.significand, Parts.power, Json.ofDigits_append, Json.ofDigits_zeros,
      Json.ofDigits_zero, Json.ofDigits_ofNat, zero_mul, zero_add, Option.map_none, Option.getD_none,
      List.length_append, hlength]
    congr 2
    omega

variable (hd : d.significand ≠ 0)

include hd

/-- A whole number: more zeros after its last digit, and zero as the fraction. -/
theorem writes_whole (hexp : 0 ≤ d.exponent) :
    Writes ⟨negative, Decimal.ofNat d.significand ++ zeros d.exponent, [.ofChar '0'], none⟩ d := by
  refine ⟨⟨by simp [Decimal.ofNat_ne_nil], ?_, fun h => ?_, Json.allDigits_zero, by simp⟩,
    by simp, ?_⟩
  · exact List.forall_mem_append.mpr ⟨Decimal.allDigits_ofNat _, Json.allDigits_zeros _⟩
  · rw [List.head?_append_of_ne_nil _ (Decimal.ofNat_ne_nil _)] at h
    exact absurd h (Decimal.head?_ofNat hd)
  · obtain ⟨n, hn⟩ := Int.eq_ofNat_of_zero_le hexp
    have hlength : (zeros (n : ℤ)).length = n := by rw [zeros, List.length_replicate, Int.toNat_natCast]
    simp only [Parts.significand, Parts.power, hn, Json.ofDigits_append, Json.ofDigits_zeros,
      Json.ofDigits_zero, Json.ofDigits_ofNat, hlength, List.length_singleton, Option.map_none,
      Option.getD_none, add_zero]
    push_cast
    rw [zpow_natCast]
    field_simp

/-- A point between two digits. -/
theorem writes_within {n : ℕ} (hn : 0 < n) (hlt : n < (Decimal.ofNat d.significand).length)
    (hexp : d.exponent = n - (Decimal.ofNat d.significand).length) :
    Writes ⟨negative, (Decimal.ofNat d.significand).take n, (Decimal.ofNat d.significand).drop n,
      none⟩ d := by
  have hdigits := Decimal.allDigits_ofNat d.significand
  have hdrop : (Decimal.ofNat d.significand).drop n ≠ [] := by
    rw [Ne, List.drop_eq_nil_iff]
    omega
  refine ⟨⟨by simp [Decimal.ofNat_ne_nil, hn.ne'],
    fun c hc => hdigits c (List.mem_of_mem_take hc), fun h => ?_,
    fun c hc => hdigits c (List.mem_of_mem_drop hc), by simp⟩, fun h => hdrop h.1, ?_⟩
  · rw [List.head?_take, if_neg (by omega)] at h
    exact absurd h (Decimal.head?_ofNat hd)
  · simp only [Parts.significand, Parts.power, List.take_append_drop, Json.ofDigits_ofNat,
      Option.map_none, Option.getD_none, List.length_drop]
    congr 2
    omega

/-- The first digit before the point, the other ones after it, and an exponent. -/
theorem writes_exponent {x : Exponent} (hx : x.WellFormed)
    (hvalue : x.value = d.exponent + (Decimal.ofNat d.significand).length - 1) :
    Writes ⟨negative, (Decimal.ofNat d.significand).take 1, (Decimal.ofNat d.significand).drop 1,
      some x⟩ d := by
  have hdigits := Decimal.allDigits_ofNat d.significand
  have hlength := List.length_pos_iff.mpr (Decimal.ofNat_ne_nil d.significand)
  refine ⟨⟨by simp [Decimal.ofNat_ne_nil], fun c hc => hdigits c (List.mem_of_mem_take hc), fun h => ?_,
    fun c hc => hdigits c (List.mem_of_mem_drop hc), by simpa using hx⟩, by simp, ?_⟩
  · rw [List.head?_take, if_neg one_ne_zero] at h
    exact absurd h (Decimal.head?_ofNat hd)
  · simp only [Parts.significand, Parts.power, List.take_append_drop, Json.ofDigits_ofNat,
      Option.map_some, Option.getD_some, List.length_drop, hvalue]
    congr 2
    omega

/-- Every layout of a decimal other than zero is a number that stands for it. It has an exponent if the
first digit is out of the range of the positional form. -/
theorem exists_writes :
    ∃ p : Parts, Writes p d ∧ p.negative = negative ∧ p.unsigned = l.write d ∧
      (p.exponent? = none ↔ l.lowest ≤ d.leading ∧ d.leading < l.limit) := by
  have hne := Decimal.ofNat_ne_nil d.significand
  have hlength := List.length_pos_iff.mpr hne
  by_cases hpositional : l.lowest ≤ d.exponent + (Decimal.ofNat d.significand).length - 1 ∧
      d.exponent + (Decimal.ofNat d.significand).length - 1 < l.limit
  · simp only [write, if_pos hpositional]
    by_cases hbelow : d.exponent + (Decimal.ofNat d.significand).length - 1 < 0
    · refine ⟨_, writes_below negative (-(d.exponent + (Decimal.ofNat d.significand).length - 1) - 1)
        (by omega) (by omega), rfl, ?_, iff_of_true rfl hpositional⟩
      have hpoint : text "0." = [.ofChar '0', .ofChar '.'] := rfl
      simp [Parts.unsigned, hne, hbelow, hpoint]
    · by_cases hwhole : (Decimal.ofNat d.significand).length ≤
          d.exponent + (Decimal.ofNat d.significand).length - 1 + 1
      · refine ⟨_, writes_whole negative hd (by omega), rfl, ?_, iff_of_true rfl hpositional⟩
        have hend : text ".0" = [.ofChar '.', .ofChar '0'] := rfl
        rw [if_neg hbelow, if_pos hwhole, hend]
        simp [Parts.unsigned]
      · refine ⟨_, writes_within negative hd
          (n := (d.exponent + (Decimal.ofNat d.significand).length - 1 + 1).toNat) (by omega) (by omega)
          (by omega), rfl, ?_, iff_of_true rfl hpositional⟩
        have hdrop : (Decimal.ofNat d.significand).drop
            (d.exponent + (Decimal.ofNat d.significand).length - 1 + 1).toNat ≠ [] := by
          rw [Ne, List.drop_eq_nil_iff]
          omega
        rw [if_neg hbelow, if_neg hwhole, Parts.unsigned, if_neg hdrop]
        simp
  · obtain ⟨x, hx, htext, hvalue⟩ := exponentText_eq l
      (d.exponent + (Decimal.ofNat d.significand).length - 1)
    refine ⟨_, writes_exponent negative hd hx hvalue, rfl, ?_, iff_of_false nofun hpositional⟩
    simp only [write, if_neg hpositional, Parts.unsigned, Option.map_some, Option.getD_some, htext]
    match hds : Decimal.ofNat d.significand with
    | [] => exact absurd hds hne
    | [c] => simp
    | c :: c' :: rest => simp

end

end FloatLayout

namespace Binary64

theorem exponent_le {x : Binary64} (hx : x.IsFinite) : x.exponent ≤ 971 := by
  have hfield : x.exponentField < 0x7FF :=
    lt_of_le_of_ne (Nat.le_of_lt_succ (Nat.mod_lt _ (by decide))) hx
  rw [exponent]
  split <;> omega

/-- The magnitudes that are rounded to finite numbers other than zero are within the range in which
powers of ten are taken. -/
theorem nears_bounds {x : Binary64} (hx : x.IsFinite) (hzero : x.significand ≠ 0) {v : ℚ}
    (h : x.Nears v) : (10 : ℚ) ^ (-401 : ℤ) < v ∧ v < 10 ^ (400 : ℤ) := by
  obtain ⟨hge, hle, -⟩ := h
  have hunit : (0 : ℚ) < 2 ^ x.exponent := by positivity
  have hgap := x.gapBelow_le
  have hm : (1 : ℚ) ≤ x.significand := by exact_mod_cast Nat.one_le_iff_ne_zero.mpr hzero
  have hmlt : (x.significand : ℚ) + 1 ≤ 2 ^ 53 := by exact_mod_cast x.significand_lt
  rw [two_zpow_sub_two] at hge hle
  constructor
  · calc (10 : ℚ) ^ (-401 : ℤ) < 10 ^ Decimal.Shortest.tenBelow (-1075) :=
          zpow_lt_zpow_right₀ (by norm_num) (by decide)
      _ ≤ 2 ^ (-1075 : ℤ) := Decimal.Shortest.ten_zpow_tenBelow_le _
      _ ≤ 2 ^ (x.exponent - 1) := zpow_le_zpow_right₀ one_le_two (by have := x.exponent_ge; omega)
      _ = 2 ^ x.exponent / 2 := zpow_sub_one₀ two_ne_zero _
      _ ≤ v := by nlinarith
  · have hten : (10 : ℚ) ^ (-342 : ℤ) ≤ 2 ^ (-1024 : ℤ) :=
      Decimal.Shortest.ten_zpow_tenBelow_le (-1024)
    calc v ≤ 2 ^ x.exponent * 2 ^ (53 : ℤ) := by
          norm_num at hmlt ⊢
          nlinarith
      _ = 2 ^ (x.exponent + 53) := (zpow_add₀ two_ne_zero _ _).symm
      _ ≤ 2 ^ (1024 : ℤ) := zpow_le_zpow_right₀ one_le_two (by have := exponent_le hx; omega)
      _ ≤ 10 ^ (342 : ℤ) := by
          rwa [zpow_neg, zpow_neg, inv_le_inv₀ (by positivity) (by positivity)] at hten
      _ < 10 ^ (400 : ℤ) := zpow_lt_zpow_right₀ (by norm_num) (by norm_num)

theorem ne_zero_of_nears {x : Binary64} (hx : x.IsFinite) (hzero : x.significand ≠ 0) {n : ℕ} {e : ℤ}
    (h : x.Nears (n * 10 ^ e)) : n ≠ 0 := by
  rintro rfl
  have hlow := (nears_bounds hx hzero h).1
  rw [Nat.cast_zero, zero_mul] at hlow
  exact absurd hlow (not_lt.mpr (by positivity))

/-- A decimal between the midpoints around a finite number is read as that number. -/
theorem nearest_eq {x : Binary64} (hx : x.IsFinite) (hzero : x.significand ≠ 0) {n : ℕ} {e : ℤ}
    (h : x.Nears (n * 10 ^ e)) : Numeral.nearest x.negative n e = x := by
  have hn := ne_zero_of_nears hx hzero h
  obtain ⟨hlow, hhigh⟩ := nears_bounds hx hzero h
  obtain ⟨hge, hlt⟩ := Decimal.length_ofNat_bounds hn
  have hpositive := List.length_pos_iff.mpr (Decimal.ofNat_ne_nil n)
  have hbelow : -401 < e + (Decimal.ofNat n).length := by
    refine (zpow_lt_zpow_iff_right₀ (a := (10 : ℚ)) (by norm_num)).mp (hlow.trans ?_)
    rw [zpow_add₀ (by norm_num), mul_comm, zpow_natCast]
    gcongr
    exact_mod_cast hlt
  have habove : e + (Decimal.ofNat n).length < 401 := by
    have : ((Decimal.ofNat n).length - 1 : ℕ) + e < 400 := by
      refine (zpow_lt_zpow_iff_right₀ (a := (10 : ℚ)) (by norm_num)).mp (lt_of_le_of_lt ?_ hhigh)
      rw [zpow_add₀ (by norm_num), zpow_natCast]
      gcongr
      exact_mod_cast hge
    omega
  have hquotient : ((n * Decimal.tenTo e.toNat : ℕ) : ℚ) / (Decimal.tenTo (-e).toNat : ℕ) =
      n * 10 ^ e := by
    push_cast
    rw [Decimal.Shortest.cast_tenTo, Decimal.Shortest.cast_tenTo, zpow_eq_div 10 e, mul_div_assoc]
  rw [Numeral.nearest]
  simp only [hn, false_or]
  rw [if_neg (by omega), if_neg (by omega), ofQuotient?_of_nears hx hzero ?_ (hquotient ▸ h),
    Option.getD_some]
  rw [Decimal.tenTo, Nat.pow_eq]
  positivity

/-- A zero is read as the zero of its sign. -/
theorem nearest_zero {x : Binary64} (hzero : x.significand = 0) (e : ℤ) :
    Numeral.nearest x.negative 0 e = x := by
  have hfield : x.exponentField = 0 := by
    by_contra hfield
    rw [significand, if_neg hfield, leadingWeight] at hzero
    omega
  have hbits := x.toNat_bits
  rw [significand, if_pos hfield] at hzero
  rw [hzero, hfield, zero_mul, add_zero, add_zero] at hbits
  simp only [Numeral.nearest, true_or, ↓reduceIte]
  rw [← hbits, UInt64.ofNat_toNat]

theorem text_of_negative {p : Parts} {x : Binary64} (hp : p.negative = x.negative) :
    p.text = if x.negative then .ofChar '-' :: p.unsigned else p.unsigned := by
  cases hneg : x.negative <;> simp [Parts.text, hp, hneg]

/-- A zero is written as a zero with a fraction. -/
theorem text_zero {x : Binary64} (hzero : x.significand = 0) :
    (⟨x.negative, [.ofChar '0'], [.ofChar '0'], none⟩ : Parts).text = x.finiteText := by
  rw [text_of_negative rfl, finiteText, if_pos hzero]
  rfl

theorem wellFormed_zero (negative : Bool) :
    (⟨negative, [.ofChar '0'], [.ofChar '0'], none⟩ : Parts).WellFormed :=
  ⟨by simp, Json.allDigits_zero, by simp, Json.allDigits_zero, by simp⟩

/-- A finite number other than zero is written as a layout of its shortest decimal. -/
theorem exists_writes_finiteText {x : Binary64} (hx : x.IsFinite) (hzero : x.significand ≠ 0) :
    ∃ p : Parts, FloatLayout.Writes p (Decimal.Shortest.digits x.significand x.exponent) ∧
      p.negative = x.negative ∧ p.text = x.finiteText ∧
      (p.exponent? = none ↔
        -4 ≤ (Decimal.Shortest.digits x.significand x.exponent).leading ∧
          (Decimal.Shortest.digits x.significand x.exponent).leading < 16) := by
  have hdigits := ne_zero_of_nears hx hzero (Decimal.Shortest.nears_digits hzero)
  obtain ⟨p, hwrites, hp, htext, hform⟩ :=
    FloatLayout.exists_writes .standard x.negative hdigits
  exact ⟨p, hwrites, hp, by rw [text_of_negative hp, htext, finiteText, if_neg hzero], hform⟩

/-- The text of a finite number is a number that is read as it, the sign of a zero included. -/
theorem exists_parts_finiteText {x : Binary64} (hx : x.IsFinite) :
    ∃ p : Parts, p.WellFormed ∧ p.text = x.finiteText ∧ p.value = .float x := by
  by_cases hzero : x.significand = 0
  · refine ⟨_, wellFormed_zero x.negative, text_zero hzero, ?_⟩
    rw [Parts.value, if_neg (by simp)]
    exact congrArg Json.float (nearest_zero hzero _)
  · obtain ⟨p, ⟨hwell, hfloating, hmagnitude⟩, hp, htext, -⟩ := exists_writes_finiteText hx hzero
    refine ⟨p, hwell, htext, ?_⟩
    have hnears := Decimal.Shortest.nears_digits hzero
    rw [Parts.value, if_neg hfloating, hp, nearest_eq hx hzero (hmagnitude ▸ hnears)]

/-- A number that is neither finite nor NaN is an infinity. -/
theorem eq_infinity {x : Binary64} (hx : ¬ x.IsFinite) (hnan : ¬ x.IsNan) :
    x = infinity x.negative := by
  have hfield : x.exponentField = 0x7FF := by simpa [IsFinite] using hx
  have hfraction : x.fraction = 0 := by simpa [IsNan, hfield] using hnan
  have hbits := x.toNat_bits
  rw [hfield, hfraction, add_zero] at hbits
  rw [infinity, ← hbits, UInt64.ofNat_toNat]

end Binary64

end JsonWriter
