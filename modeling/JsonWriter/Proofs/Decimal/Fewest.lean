import JsonWriter.Proofs.Decimal.Nearest
import JsonWriter.Proofs.Output
import Mathlib.Data.Int.Log
import Mathlib.Data.Rat.Floor
import Mathlib.Data.List.DropRight

/-!
# The fewest digits

The scan over decimal grids stops at the coarsest one that has a point between the midpoints around a
number. So no decimal with fewer digits is rounded to the number. Main statements: `length_digits_le`,
and `generate_float` on the text of a finite number.
-/

namespace JsonWriter

namespace Binary64

variable {x : Binary64} {u v w : ℚ}

/-- What is between two numbers that are between the midpoints is between them too. -/
theorem nears_of_between (hu : x.Nears u) (hv : x.Nears v) (huw : u ≤ w) (hwv : w ≤ v) :
    x.Nears w := by
  obtain ⟨hlow, -, heven⟩ := hu
  obtain ⟨-, hhigh, heven'⟩ := hv
  refine ⟨hlow.trans huw, hwv.trans hhigh, ?_⟩
  rintro (hw | hw)
  · exact heven (.inl (le_antisymm (hw ▸ huw) hlow))
  · exact heven' (.inr (le_antisymm hhigh (hw ▸ hwv)))

/-- Between a decimal and a longer one that is on a grid as coarse is a power of ten on the next grid. -/
theorem nears_power {n a l : ℕ} {e k : ℤ} (hn : x.Nears (n * 10 ^ e)) (ha : x.Nears (a * 10 ^ k))
    (hek : e ≤ k) (hle : n ≤ 10 ^ (l + 1)) (hge : 10 ^ (l + 1) ≤ a) :
    x.Nears ((10 ^ l : ℕ) * 10 ^ (k + 1)) := by
  have hsplit : ((10 ^ l : ℕ) : ℚ) * 10 ^ (k + 1) = (10 ^ (l + 1) : ℕ) * 10 ^ k := by
    rw [zpow_add_one₀ (by norm_num), pow_succ]
    push_cast
    ring
  rw [hsplit]
  refine nears_of_between hn ha ?_ ?_
  · exact mul_le_mul (by exact_mod_cast hle) (zpow_le_zpow_right₀ (by norm_num) hek) (by positivity)
      (by positivity)
  · gcongr

theorem nears_magnitude (x : Binary64) : x.Nears x.magnitude := by
  have habove := x.stepAbove_pos
  have hbelow := x.stepBelow_pos
  refine nears_iff.mpr ⟨by linarith, by linarith, ?_⟩
  rintro (h | h) <;> linarith

end Binary64

namespace Decimal.Shortest

variable {x : Binary64}

/-- The points of a grid around a number. -/
theorem below_magnitude (x : Binary64) (k : ℤ) :
    ((Grid.mk x.significand x.exponent k).below : ℚ) * 10 ^ k ≤ x.magnitude ∧
      x.magnitude < ((Grid.mk x.significand x.exponent k).below + 1 : ℕ) * 10 ^ k := by
  have hmagnitude : ((4 * x.significand : ℕ) : ℚ) * 2 ^ (x.exponent - 2) = x.magnitude := by
    rw [Binary64.two_zpow_sub_two, Binary64.magnitude]
    push_cast
    ring
  obtain ⟨hle, hlt⟩ := (Grid.mk x.significand x.exponent k).below_bounds
  generalize (Grid.mk x.significand x.exponent k).below = b at hle hlt ⊢
  have hcompare (a : ℕ) :=
    Grid.mul_point_le_iff ⟨x.significand, x.exponent, k⟩ a (4 * x.significand)
  simp only [hmagnitude] at hcompare
  exact ⟨(hcompare b).mp hle, not_le.mp fun h => Nat.not_le.mpr hlt ((hcompare (b + 1)).mpr h)⟩

/-- A grid with a point between the midpoints has one that is next to the number. -/
theorem exists_choose?_of_nears (hzero : x.significand ≠ 0) {a : ℕ} {k : ℤ}
    (h : x.Nears (a * 10 ^ k)) : ∃ b, (Grid.mk x.significand x.exponent k).choose? = some b := by
  obtain ⟨hlow, hhigh⟩ := below_magnitude x k
  have hunit : (0 : ℚ) < 10 ^ k := by positivity
  refine Grid.exists_choose?_of_reads ?_
  rw [Grid.reads_iff_nears hzero, Grid.reads_iff_nears hzero]
  obtain hle | hlt := Nat.lt_or_ge (Grid.mk x.significand x.exponent k).below a
  · refine .inr (Binary64.nears_of_between x.nears_magnitude h hhigh.le ?_)
    gcongr
    exact hle
  · refine .inl (Binary64.nears_of_between h x.nears_magnitude ?_ hlow)
    gcongr

theorem two_zpow_le_tenAbove (t : ℤ) : (2 : ℚ) ^ t ≤ 10 ^ tenAbove t := by
  have hle := ten_zpow_tenBelow_le (-t)
  rwa [tenAbove, zpow_neg (10 : ℚ), ← inv_inv ((2 : ℚ) ^ t), ← zpow_neg,
    inv_le_inv₀ (by positivity) (by positivity)]

/-- The first grid of the scan is too coarse for any point but zero. -/
theorem lt_top_of_nears {v : ℚ} (h : x.Nears v) :
    v < 10 ^ tenAbove (x.significand.log2 + 1 + x.exponent) := by
  have hlog : (x.significand : ℚ) + 1 ≤ 2 ^ ((x.significand.log2 : ℤ) + 1) := by
    have hpow : (2 : ℚ) ^ ((x.significand.log2 : ℤ) + 1) = (2 ^ (x.significand.log2 + 1) : ℕ) := by
      rw [Nat.cast_pow, Nat.cast_ofNat, ← zpow_natCast]
      push_cast
      rfl
    rw [hpow]
    exact_mod_cast Nat.lt_log2_self
  have hunit : (0 : ℚ) < 2 ^ x.exponent := by positivity
  obtain ⟨-, hhigh, -⟩ := Binary64.nears_iff.mp h
  calc v ≤ x.magnitude + x.stepAbove / 2 := hhigh
    _ < (x.significand + 1) * 2 ^ x.exponent := by
        rw [Binary64.magnitude, Binary64.stepAbove]
        linarith
    _ ≤ 2 ^ ((x.significand.log2 : ℤ) + 1) * 2 ^ x.exponent := by gcongr
    _ = 2 ^ ((x.significand.log2 : ℤ) + 1 + x.exponent) := (zpow_add₀ two_ne_zero _ _).symm
    _ ≤ 10 ^ tenAbove (x.significand.log2 + 1 + x.exponent) := two_zpow_le_tenAbove _

/-- A point other than zero is below the top of the scan, and so is its grid. -/
theorem exponent_lt_top_of_nears {b : ℕ} {j : ℤ} (hb : b ≠ 0) (hj : x.Nears (b * 10 ^ j)) :
    j < tenAbove (x.significand.log2 + 1 + x.exponent) := by
  refine (zpow_lt_zpow_iff_right₀ (a := (10 : ℚ)) (by norm_num)).mp ?_
  refine lt_of_le_of_lt ?_ (lt_top_of_nears hj)
  exact le_mul_of_one_le_left (by positivity) (by exact_mod_cast Nat.one_le_iff_ne_zero.mpr hb)

/-- No decimal between the midpoints around a number has fewer digits than the shortest one. -/
theorem length_digits_le (hx : x.IsFinite) (hzero : x.significand ≠ 0) {n : ℕ} {e : ℤ}
    (h : x.Nears (n * 10 ^ e)) :
    (ofNat (digits x.significand x.exponent).significand).length ≤ (ofNat n).length := by
  obtain ⟨a, k, hdigits, hreads, hcoarser⟩ := digits_reads hzero x.exponent
  have ha := (Grid.reads_iff_nears hzero).mp hreads
  have hn0 := Binary64.ne_zero_of_nears hx hzero h
  have ha0 := Binary64.ne_zero_of_nears hx hzero ha
  have hcoarsest {b : ℕ} {j : ℤ} (hb : b ≠ 0) (hj : x.Nears (b * 10 ^ j)) : j ≤ k := by
    by_contra hlt
    obtain ⟨c, hc⟩ := exists_choose?_of_nears hzero hj
    rw [hcoarser j (by omega) (exponent_lt_top_of_nears hb hj).le] at hc
    cases hc
  rw [hdigits]
  by_contra hlt
  have hlt : (ofNat n).length < (ofNat a).length := Nat.lt_of_not_le hlt
  -- Otherwise the power of ten that `a` starts at is between the two, on a coarser grid.
  obtain ⟨-, hnlt⟩ := length_ofNat_bounds hn0
  obtain ⟨hage, -⟩ := length_ofNat_bounds ha0
  have hpos := List.length_pos_iff.mpr (ofNat_ne_nil n)
  obtain ⟨l, hl⟩ : ∃ l, (ofNat a).length = l + 2 := ⟨(ofNat a).length - 2, by omega⟩
  rw [hl] at hage
  have hle : n ≤ 10 ^ (l + 1) := hnlt.le.trans (Nat.pow_le_pow_right (by decide) (by omega))
  have hpower := Binary64.nears_power h ha (hcoarsest hn0 h) hle hage
  have hcontra := hcoarsest (by positivity) hpower
  omega

end Decimal.Shortest

/-! ## Significant digits -/

/-- The power of ten that a decimal starts at. -/
theorem Decimal.log_eq_leading {d : Decimal} (hd : d.significand ≠ 0) :
    Int.log 10 ((d.significand : ℚ) * 10 ^ d.exponent) = d.leading := by
  obtain ⟨hlow, hhigh⟩ := length_ofNat_bounds hd
  have hpos : (0 : ℚ) < d.significand * 10 ^ d.exponent := by positivity
  have hlength := List.length_pos_iff.mpr (ofNat_ne_nil d.significand)
  obtain ⟨l, hl⟩ := Nat.exists_eq_succ_of_ne_zero hlength.ne'
  rw [hl, Nat.succ_sub_one] at hlow
  rw [hl] at hhigh
  have hleading : d.leading = l + d.exponent := by
    rw [leading, hl]
    push_cast
    ring
  have hpower (n : ℕ) : ((10 : ℕ) : ℚ) ^ ((n : ℤ) + d.exponent) = (10 ^ n : ℕ) * 10 ^ d.exponent := by
    push_cast
    rw [zpow_add₀ (by norm_num), zpow_natCast]
  have hge : d.leading ≤ Int.log 10 ((d.significand : ℚ) * 10 ^ d.exponent) := by
    rw [← Int.zpow_le_iff_le_log (by norm_num) hpos, hleading, hpower]
    gcongr
  have hlt : Int.log 10 ((d.significand : ℚ) * 10 ^ d.exponent) < d.leading + 1 := by
    rw [← Int.lt_zpow_iff_log_lt (by norm_num) hpos, hleading, add_right_comm, ← Nat.cast_succ, hpower]
    gcongr
  omega

namespace Json

open Binary64 (signed Rounds)

theorem ofDigits_dropWhile_zero (t : Text) :
    ofDigits (t.dropWhile (· = .ofChar '0')) = ofDigits t := by
  induction t with
  | nil => rfl
  | cons c t ih =>
    rw [List.dropWhile_cons]
    split
    · next hc =>
      rw [ih, of_decide_eq_true hc, ← List.singleton_append, ofDigits_append, ofDigits_zero, zero_mul,
        zero_add]
    · rfl

/-- Digits are those that are left without the zeros at their end, and a power of ten. -/
theorem ofDigits_rdropWhile_zero (t : Text) :
    ∃ n, ofDigits t = ofDigits (t.rdropWhile (· = .ofChar '0')) * 10 ^ n := by
  induction t using List.reverseRecOn with
  | nil => exact ⟨0, rfl⟩
  | append_singleton t c ih =>
    rw [List.rdropWhile_concat]
    split
    · next hc =>
      obtain ⟨n, hn⟩ := ih
      refine ⟨n + 1, ?_⟩
      rw [of_decide_eq_true hc, ofDigits_append, ofDigits_zero, hn, List.length_singleton, pow_succ]
      ring
    · exact ⟨0, (Nat.mul_one _).symm⟩

theorem ofDigits_digit {c : CodePoint} (hc : IsDigit c) (hzero : c ≠ .ofChar '0') :
    1 ≤ ofDigits [c] ∧ ofDigits [c] ≤ 9 := by
  have hval : c.val ≠ 0x30 := fun h => hzero (by rw [← CodePoint.ofNat_val c, h]; rfl)
  rw [IsDigit] at hc
  simp only [ofDigits, Numeral.ofDigits, List.map_cons, List.map_nil, List.foldl_cons, List.foldl_nil]
  omega

/-- Digits that do not start with a zero are a number of that length. -/
theorem pow_length_le_ofDigits {c : CodePoint} {t : Text} (hc : IsDigit c) (hzero : c ≠ .ofChar '0') :
    10 ^ t.length ≤ ofDigits (c :: t) := by
  rw [← List.singleton_append, ofDigits_append]
  exact (Nat.le_mul_of_pos_left _ (ofDigits_digit hc hzero).1).trans (Nat.le_add_right _ _)

/-- A number that does not end with a zero is the least significand of its decimals. -/
theorem le_of_mul_zpow_eq {n a : ℕ} {i j : ℤ} (hn : n % 10 ≠ 0)
    (h : (n : ℚ) * 10 ^ i = a * 10 ^ j) : n ≤ a := by
  have hunit (k : ℤ) : (10 : ℚ) ^ k ≠ 0 := by positivity
  obtain hle | hlt := le_or_gt j i
  · obtain ⟨k, rfl⟩ : ∃ k : ℕ, i = j + k := ⟨(i - j).toNat, by omega⟩
    have ha : n * 10 ^ k = a := by
      rw [zpow_add₀ (by norm_num), zpow_natCast, mul_left_comm, mul_comm (a : ℚ)] at h
      exact_mod_cast mul_left_cancel₀ (hunit j) h
    exact ha ▸ Nat.le_mul_of_pos_right n (by positivity)
  · obtain ⟨k, rfl⟩ : ∃ k : ℕ, j = i + (k + 1) := ⟨(j - i).toNat - 1, by omega⟩
    have ha : n = a * 10 ^ (k + 1) := by
      rw [zpow_add₀ (by norm_num), mul_left_comm, mul_comm (n : ℚ)] at h
      exact_mod_cast mul_left_cancel₀ (hunit i) h
    rw [ha, pow_succ, ← mul_assoc, Nat.mul_mod_left] at hn
    exact absurd rfl hn

namespace Parts

variable (p : Parts)

/-- What a number is exactly. -/
def exact : ℚ := signed p.negative (p.significand * 10 ^ p.power)

/-- The digits of a number without the zeros before and after them. -/
def significant : Text :=
  ((p.whole ++ p.fraction).dropWhile (· = .ofChar '0')).rdropWhile (· = .ofChar '0')

variable {p}

theorem significant_isPrefix :
    p.significant <+: (p.whole ++ p.fraction).dropWhile (· = .ofChar '0') :=
  List.rdropWhile_prefix _ _

theorem allDigits_significant (hp : p.WellFormed) : AllDigits p.significant := by
  obtain ⟨-, hwhole, -, hfraction, -⟩ := hp
  intro c hc
  exact List.forall_mem_append.mpr ⟨hwhole, hfraction⟩ c
    ((List.dropWhile_suffix _).subset (significant_isPrefix.subset hc))

theorem ne_zero_of_significant {c : CodePoint} {rest : Text} (h : p.significant = c :: rest) :
    c ≠ .ofChar '0' := by
  obtain ⟨more, hmore⟩ := p.significant_isPrefix
  rw [h] at hmore
  have hne : (p.whole ++ p.fraction).dropWhile (· = .ofChar '0') ≠ [] := by simp [← hmore]
  have hhead := List.head_dropWhile_not _ hne
  simp only [← hmore, List.cons_append, List.head_cons] at hhead
  exact of_decide_eq_false hhead

/-- The significand is that of the digits without the zeros around them, which does not end with a zero,
times a power of ten. -/
theorem exists_significand_eq (hp : p.WellFormed) (hne : p.significant ≠ []) :
    ofDigits p.significant % 10 ≠ 0 ∧ ∃ n, p.significand = ofDigits p.significant * 10 ^ n := by
  constructor
  · have hlast : p.significant.getLast hne ≠ .ofChar '0' := by
      have hlast := List.rdropWhile_last_not _ _ hne
      rwa [decide_eq_true_eq] at hlast
    have hdigit := ofDigits_digit (allDigits_significant hp _ (List.getLast_mem hne)) hlast
    rw [← List.dropLast_append_getLast hne, ofDigits_append, List.length_singleton]
    omega
  · obtain ⟨n, hn⟩ := ofDigits_rdropWhile_zero ((p.whole ++ p.fraction).dropWhile (· = .ofChar '0'))
    exact ⟨n, (ofDigits_dropWhile_zero _).symm.trans hn⟩

/-- No decimal is the number with fewer digits than it has without the zeros around them. -/
theorem length_significant_le (hp : p.WellFormed) {a : ℕ} {k : ℤ} (ha : a ≠ 0)
    (h : (p.significand : ℚ) * 10 ^ p.power = a * 10 ^ k) :
    p.significant.length ≤ (Decimal.ofNat a).length := by
  match hs : p.significant with
  | [] => exact Nat.zero_le _
  | c :: rest =>
    obtain ⟨hend, n, hn⟩ := exists_significand_eq hp (hs ▸ List.cons_ne_nil c rest)
    rw [hn, Nat.cast_mul, Nat.cast_pow, Nat.cast_ofNat, mul_assoc, ← zpow_natCast,
      ← zpow_add₀ (by norm_num)] at h
    have hdigit := allDigits_significant hp c (hs ▸ List.mem_cons_self)
    have hge := pow_length_le_ofDigits (t := rest) hdigit (ne_zero_of_significant hs)
    have hlt : 10 ^ rest.length < 10 ^ (Decimal.ofNat a).length := calc
      10 ^ rest.length ≤ ofDigits (c :: rest) := hge
      _ ≤ a := le_of_mul_zpow_eq (hs ▸ hend) (hs ▸ h)
      _ < 10 ^ (Decimal.ofNat a).length := (Decimal.length_ofNat_bounds ha).2
    exact (Nat.pow_lt_pow_iff_right (by decide)).mp hlt

/-- The number is a shortest one that is read as `x`, and never read as a whole one. It is positional
if its first digit is neither too far behind the point nor too far before it. -/
structure IsShortest (p : Parts) (x : Binary64) : Prop where
  wellFormed : p.WellFormed
  floating : p.fraction ≠ [] ∨ p.exponent? ≠ none
  negative : p.negative = x.negative
  rounds : ∀ y : Binary64, y.negative = p.negative → (Rounds p.exact y ↔ y = x)
  value : p.value = .float x
  fewest : ∀ (n : ℕ) (e : ℤ), Rounds (signed p.negative (n * 10 ^ e)) x →
    p.significant.length ≤ (Decimal.ofNat n).length
  positional : p.exponent? = none ↔ -4 ≤ Int.log 10 |p.exact| ∧ Int.log 10 |p.exact| < 16

end Parts

end Json

namespace Binary64

open Json (Parts)

variable {x : Binary64}

theorem rounds_iff_eq {v : ℚ} (hv : 0 ≤ v) (h : Rounds (signed x.negative v) x) {y : Binary64}
    (hsign : y.negative = x.negative) : Rounds (signed x.negative v) y ↔ y = x :=
  ⟨fun hy => (eq_of_rounds hv h hy hsign).symm, fun heq => heq ▸ h⟩

theorem exists_isShortest_zero (hx : x.IsFinite) (hzero : x.significand = 0) :
    ∃ p : Parts, p.text = x.finiteText ∧ p.IsShortest x := by
  have hexact : (⟨x.negative, [.ofChar '0'], [.ofChar '0'], none⟩ : Parts).exact =
      signed x.negative 0 := by
    have hsignificand : Json.ofDigits [.ofChar '0', .ofChar '0'] = 0 := rfl
    simp only [Parts.exact, Parts.significand, List.singleton_append, hsignificand, Nat.cast_zero,
      zero_mul]
  have hself : x.exact = signed x.negative 0 := by
    rw [exact, magnitude, hzero, Nat.cast_zero, zero_mul]
  have hrounds : Rounds (signed x.negative 0) x := by
    refine ⟨hx, ?_, fun y _ => ?_, fun _ _ _ _ => by rw [hzero]⟩
    · rw [abs_signed, abs_zero, limit, sub_pos]
      exact pow_lt_pow_right₀ one_lt_two (by decide)
    · rw [hself, sub_self, abs_zero]
      exact abs_nonneg _
  refine ⟨_, text_zero hzero, wellFormed_zero x.negative, .inl (List.cons_ne_nil _ _), rfl, ?_, ?_,
    fun n e _ => Nat.zero_le _, ?_⟩
  · intro y hsign
    rw [hexact]
    exact rounds_iff_eq le_rfl hrounds hsign
  · rw [Parts.value, if_neg (by simp)]
    exact congrArg Json.float (nearest_zero hzero _)
  · rw [hexact, abs_signed, abs_zero, Int.log_zero_right]
    exact iff_of_true rfl (by decide)

/-- The text of a finite number is a shortest one that is read as it. -/
theorem exists_isShortest (hx : x.IsFinite) : ∃ p : Parts, p.text = x.finiteText ∧ p.IsShortest x := by
  by_cases hzero : x.significand = 0
  · exact exists_isShortest_zero hx hzero
  obtain ⟨p, ⟨hwell, hfloating, hmagnitude⟩, hp, htext, hform⟩ := exists_writes_finiteText hx hzero
  have hnears := Decimal.Shortest.nears_digits hzero
  set d := Decimal.Shortest.digits x.significand x.exponent
  have hdigits := ne_zero_of_nears hx hzero hnears
  have hpos := (pos_of_nears hzero hnears).le
  have hexact : p.exact = signed x.negative (d.significand * 10 ^ d.exponent) := by
    rw [Parts.exact, hp, hmagnitude]
  have hrounds := (rounds_iff_nears hx hzero hpos).mpr hnears
  refine ⟨p, htext, hwell, not_and_or.mp hfloating, hp, ?_, ?_, fun n e h => ?_, ?_⟩
  · intro y hsign
    rw [hexact]
    exact rounds_iff_eq hpos hrounds (hsign.trans hp)
  · rw [Parts.value, if_neg hfloating, hp, nearest_eq hx hzero (hmagnitude ▸ hnears)]
  · rw [hp, rounds_iff_nears hx hzero (by positivity)] at h
    calc p.significant.length ≤ (Decimal.ofNat d.significand).length :=
          Parts.length_significant_le hwell hdigits hmagnitude
      _ ≤ (Decimal.ofNat n).length := Decimal.Shortest.length_digits_le hx hzero h
  · rw [hexact, abs_signed, abs_of_nonneg hpos, Decimal.log_eq_leading hdigits]
    exact hform

end Binary64

/-- The text of a finite number is a shortest one that is read as the number itself, down to the sign of
a zero, and never as a whole number. -/
theorem generate_float {v : Value} {x : Binary64} (hv : v.content = .float x) (hx : x.IsFinite)
    {s : Session} {id : Nat} {g : Generator} (hg : s.generator? id = some g) :
    ∃ p : Json.Parts, (generate v id s).1 = .ok p.text ∧ p.IsShortest x := by
  have hnative : v.IsNative := (Value.isTree_content v).mp (by rw [hv]; trivial)
  have hnode : v.node = .float x := by rw [← Value.node_content v, hv, Value.node]
  have hscalar : Render.container? v = none := by rw [Render.container?, hnode]
  obtain ⟨p, htext, hp⟩ := Binary64.exists_isShortest hx
  have hleaf : (Render.leaf (fun _ _ => Action.fail .endless) g.format v g.depth s).1 =
      .ok p.text := by
    simp only [Render.leaf, hnode, Render.float, if_pos hx, htext]
    rfl
  have hcheck : checkOutput g.asciiOnly.isTrue p.text = .ok () :=
    checkOutput_of_fits (Render.leaf_fits hnative hleaf)
  have hparts : Render.layOut (.outcome g.format s) g.format g.depth v = .ok [.text p.text] := by
    rw [Render.layOut_of_scalar _ _ _ hscalar]
    exact Render.token_eq_ok.mpr ⟨_, hleaf, rfl⟩
  have hjoin : Render.Part.join [.text p.text] = .ok p.text := Render.Part.join_text p.text
  exact ⟨p, (generate_eq_ok hnative hg).mpr ⟨_, hparts, hjoin, hcheck⟩, hp⟩

/-- A number that is half a unit below ten to the power 23, of which the other neighbour is odd. -/
def tieSample : Binary64 := ⟨0x44B52D02C7E14AF6⟩

theorem generate_tieSample :
    let s := { Session.initial true with generators := #[.initial] }
    tieSample.IsFinite ∧ (generate (.float tieSample) 0 s).1 = .ok (text "1e+23") ∧
      ∃ p : Json.Parts, p.text = text "1e+23" ∧ p.IsShortest tieSample := by
  intro s
  have hg : s.generator? 0 = some .initial := rfl
  have hx : tieSample.IsFinite := by decide
  have hrun : (generate (.float tieSample) 0 s).1 = .ok (text "1e+23") := by
    rw [generate_outcome (v := .float tieSample) trivial hg]
    decide +kernel
  obtain ⟨p, hp, hshortest⟩ := generate_float (v := .float tieSample) rfl hx hg
  exact ⟨hx, hrun, p, Except.ok.inj (hp.symm.trans hrun), hshortest⟩

end JsonWriter
