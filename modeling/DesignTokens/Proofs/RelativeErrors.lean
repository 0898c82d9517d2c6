import DesignTokens.Proofs.PrintedNumbers

/-!
Relative errors. Each result of binary64 arithmetic is off by at most one part in 2^50, unless it is
tiny or huge, so after a few results a number is still near to the exact one. Near enough: where the
exact number is a fraction with a small denominator, the unit count that is printed for its
approximation is nearest to the exact number too. Main statement: `exists_trimmed`.
-/
namespace DesignTokens.Number

open Float.Model.UnpackedFloat (Sign)

/-- A result of at least 2^-1000 is off by at most one part in 2^50. -/
theorem Approximates.close_relative {x : Float} {w : ℚ} (h : Approximates x w)
    (least : 2 ^ (-1000 : Int) ≤ |w|) : |value x - w| ≤ |w| / 2 ^ 50 := by
  have positive : 0 < |w| := lt_of_lt_of_le (by positivity) least
  obtain ⟨p, lower, upper⟩ := exists_mem_Ioc_zpow positive (by norm_num : (1 : ℚ) < 2)
  have exponent : -1000 ≤ p + 1 :=
    (zpow_le_zpow_iff_right₀ (by norm_num : (1 : ℚ) < 2)).1 (least.trans upper)
  have step : (2 : ℚ) ^ (p + 1 - 51) = 2 ^ p / 2 ^ 50 := by
    have split : p + 1 - 51 = p - 50 := by omega
    rw [split, zpow_sub₀ two_ne_zero]
    rfl
  calc |value x - w| ≤ 2 ^ (p + 1 - 51) := h.close_of_le (by omega) upper
    _ = 2 ^ p / 2 ^ 50 := step
    _ ≤ |w| / 2 ^ 50 := by gcongr

/-- Zero, or a size far from the ends of the range of binary64 numbers. -/
def IsModerate (w : ℚ) : Prop := w = 0 ∨ 2 ^ (-90 : Int) ≤ |w| ∧ |w| ≤ 2 ^ 90

/-- A fraction with a power of ten below it is moderate, if both are small. -/
theorem isModerate_fraction {n : Int} {e : Nat} (hn : |n| ≤ 10 ^ 12) (he : e ≤ 12) :
    IsModerate (n / 10 ^ e) := by
  by_cases zero : n = 0
  · exact .inl (by simp [zero])
  · have power : (10 : ℚ) ^ e ≤ 10 ^ 12 := pow_le_pow_right₀ (by norm_num) he
    have one : (1 : ℚ) ≤ 10 ^ e := one_le_pow₀ (by norm_num)
    have least : (1 : ℚ) ≤ |(n : ℚ)| := by exact_mod_cast Int.one_le_abs zero
    have most : |(n : ℚ)| ≤ 10 ^ 12 := by exact_mod_cast hn
    have size : |(n : ℚ) / 10 ^ e| = |(n : ℚ)| / 10 ^ e := by
      rw [abs_div, abs_of_nonneg (by positivity : (0 : ℚ) ≤ 10 ^ e)]
    refine .inr ⟨?_, ?_⟩
    · rw [size]
      calc (2 : ℚ) ^ (-90 : Int) ≤ 1 / 10 ^ 12 := by norm_num
        _ ≤ |(n : ℚ)| / 10 ^ e := by gcongr
    · rw [size]
      calc |(n : ℚ)| / 10 ^ e ≤ |(n : ℚ)| := div_le_self (abs_nonneg _) one
        _ ≤ 2 ^ 90 := most.trans (by norm_num)

/-- A real number that stands for `w` after at most `n` results, each of which added its error. -/
structure Drifts (n : Nat) (x : Float) (w : ℚ) : Prop where
  isReal : IsReal x
  near : |value x - w| ≤ n / 2 ^ 49 * |w|

namespace Drifts

variable {n : Nat} {x y : Float} {v w c : ℚ}

theorem mono {m : Nat} (h : Drifts n x w) (le : n ≤ m) : Drifts m x w := by
  refine ⟨h.isReal, h.near.trans ?_⟩
  gcongr

theorem abs_bounds (few : n ≤ 8) (near : |v - w| ≤ n / 2 ^ 49 * |w|) :
    |w| / 2 ≤ |v| ∧ |v| ≤ 2 * |w| := by
  have count : (n : ℚ) ≤ 8 := by exact_mod_cast few
  have small : (n : ℚ) / 2 ^ 49 * |w| ≤ |w| / 2 := by
    have factor : (n : ℚ) / 2 ^ 49 ≤ 1 / 2 := by
      rw [div_le_iff₀ (by positivity)]
      linarith
    calc (n : ℚ) / 2 ^ 49 * |w| ≤ 1 / 2 * |w| := by gcongr
      _ = |w| / 2 := by ring
  have above := abs_sub_abs_le_abs_sub v w
  have below := abs_sub_abs_le_abs_sub w v
  rw [abs_sub_comm] at below
  constructor <;> linarith

/-- One more result. -/
theorem round (few : n ≤ 8) (moderate : IsModerate w) (near : |v - w| ≤ n / 2 ^ 49 * |w|)
    (h : Approximates x v) : Drifts (n + 1) x w := by
  refine ⟨h.isReal, ?_⟩
  obtain rfl | ⟨least, -⟩ := moderate
  · have zero : v = 0 := by simpa using near
    subst zero
    simp [h.value_eq onGrid_zero]
  · obtain ⟨lower, upper⟩ := abs_bounds few near
    have large : (2 : ℚ) ^ (-1000 : Int) ≤ |v| :=
      calc (2 : ℚ) ^ (-1000 : Int) ≤ 2 ^ (-91 : Int) := zpow_le_zpow_right₀ (by norm_num) (by omega)
        _ = 2 ^ (-90 : Int) / 2 := by norm_num
        _ ≤ |w| / 2 := by gcongr
        _ ≤ |v| := lower
    have error := h.close_relative large
    calc |value x - w| ≤ |value x - v| + |v - w| := abs_sub_le _ _ _
      _ ≤ |v| / 2 ^ 50 + n / 2 ^ 49 * |w| := add_le_add error near
      _ ≤ 2 * |w| / 2 ^ 50 + n / 2 ^ 49 * |w| := by gcongr
      _ = (n + 1 : Nat) / 2 ^ 49 * |w| := by
        push_cast
        ring

theorem of_approximates (moderate : IsModerate w) (h : Approximates x w) : Drifts 1 x w :=
  round (Nat.zero_le 8) moderate (by simp) h

theorem scaled (h : Drifts n x w) (c : ℚ) : |value x * c - w * c| ≤ n / 2 ^ 49 * |w * c| := by
  rw [← sub_mul, abs_mul, abs_mul, ← mul_assoc]
  exact mul_le_mul_of_nonneg_right h.near (abs_nonneg c)

theorem bound (few : n ≤ 8) (moderate : IsModerate w) (near : |v - w| ≤ n / 2 ^ 49 * |w|) :
    |v| ≤ 2 ^ 100 := by
  obtain ⟨-, upper⟩ := abs_bounds few near
  obtain rfl | ⟨-, most⟩ := moderate
  · rw [abs_zero, mul_zero] at upper
    exact upper.trans (by norm_num)
  · linarith

theorem mul (h : Drifts n x w) (few : n ≤ 8) (hy : HasValue y c) (moderate : IsModerate (w * c)) :
    Drifts (n + 1) (x * y) (w * c) := by
  have near := h.scaled c
  refine round few moderate near ?_
  have product := approximates_mul h.isReal hy.isReal (hy.value_eq ▸ bound few moderate near)
  rwa [hy.value_eq] at product

theorem div (h : Drifts n x w) (few : n ≤ 8) (hy : HasValue y c) (hc : c ≠ 0)
    (moderate : IsModerate (w / c)) : Drifts (n + 1) (x / y) (w / c) := by
  have near := h.scaled c⁻¹
  rw [← div_eq_mul_inv, ← div_eq_mul_inv] at near
  refine round few moderate near ?_
  have quotient := approximates_div h.isReal hy.isReal (hy.value_eq ▸ hc)
    (hy.value_eq ▸ bound few moderate near)
  rwa [hy.value_eq] at quotient

end Drifts

/-! ### Printing what drifted -/

theorem PrintsUnits.near_value {x : Float} {places k : Nat} {s : Sign}
    (h : PrintsUnits x places s k) : |(s.apply k : ℚ) - value x * 10 ^ places| ≤ 1 / 2 := by
  have near := h.near
  rw [cast_apply, h.value_eq, mul_assoc, ← mul_sub, abs_mul]
  cases s <;> simpa [Sign.apply] using near

/-- A whole number is no more than a half away from a fraction, or else by a whole unit of twice the
denominator more. -/
theorem abs_sub_le_half {k a : Int} {d : Nat} (positive : 0 < d)
    (h : |(k : ℚ) - a / d| < 1 / 2 + 1 / (2 * d)) : |(k : ℚ) - a / d| ≤ 1 / 2 := by
  have denominator : (0 : ℚ) < 2 * d := by
    have : (0 : ℚ) < d := by exact_mod_cast positive
    positivity
  have units : |(k : ℚ) - a / d| * (2 * d) = (|2 * k * d - 2 * a| : Int) := by
    have product : ((k : ℚ) - a / d) * (2 * d) = 2 * k * d - 2 * a := by field_simp
    push_cast
    rw [← product, abs_mul, abs_of_pos denominator]
  have less : |2 * k * d - 2 * a| < (d : Int) + 1 := by
    have sum : (1 / 2 + 1 / (2 * d)) * (2 * d) = ((d + 1 : Int) : ℚ) := by
      push_cast
      field_simp
    have scaled := mul_lt_mul_of_pos_right h denominator
    rw [units, sum] at scaled
    exact_mod_cast scaled
  have most : |(k : ℚ) - a / d| * (2 * d) ≤ 1 / 2 * (2 * d) := by
    have half : (1 / 2 : ℚ) * (2 * d) = ((d : Int) : ℚ) := by
      push_cast
      ring
    rw [units, half]
    exact_mod_cast Int.lt_add_one_iff.1 less
  exact le_of_mul_le_mul_right most denominator

/-- Two whole numbers are not a half apart. -/
theorem eq_of_abs_sub_le_half {k m : Int} (h : |(k : ℚ) - m| ≤ 1 / 2) : k = m := by
  have less : |k - m| < 1 := by
    have apart : ((|k - m| : Int) : ℚ) < 1 := by
      push_cast
      linarith
    exact_mod_cast apart
  have none := Int.abs_lt_one_iff.1 less
  omega

/-- A whole number that is nearest to what drifted is nearest to what it drifted from, if that is a
fraction with a small numerator. -/
theorem Drifts.nearest {n d : Nat} {x : Float} {w c : ℚ} {k a : Int} (h : Drifts n x w)
    (few : n ≤ 8) (positive : 0 < d) (fraction : w * c = a / d) (small : |a| ≤ 10 ^ 12)
    (near : |k - value x * c| ≤ 1 / 2) : |k - w * c| ≤ 1 / 2 := by
  have denominator : (0 : ℚ) < d := by exact_mod_cast positive
  have count : (n : ℚ) ≤ 8 := by exact_mod_cast few
  have numerator : |(a : ℚ)| ≤ 10 ^ 12 := by exact_mod_cast small
  have size : |w * c| = |(a : ℚ)| / d := by rw [fraction, abs_div, abs_of_pos denominator]
  have drift : |value x * c - w * c| < 1 / (2 * d) :=
    calc |value x * c - w * c| ≤ n / 2 ^ 49 * |w * c| := h.scaled c
      _ = n / 2 ^ 49 * (|(a : ℚ)| / d) := by rw [size]
      _ ≤ 8 / 2 ^ 49 * (10 ^ 12 / d) := by gcongr
      _ = 8 / 2 ^ 49 * 10 ^ 12 * (1 / d) := by ring
      _ < 1 / 2 * (1 / d) := by
        have unit : (0 : ℚ) < 1 / d := by positivity
        have factor : (8 / 2 ^ 49 * 10 ^ 12 : ℚ) < 1 / 2 := by norm_num
        exact mul_lt_mul_of_pos_right factor unit
      _ = 1 / (2 * d) := by rw [div_mul_div_comm, one_mul]
  rw [fraction] at drift ⊢
  exact abs_sub_le_half positive
    ((abs_sub_le _ (value x * c) _).trans_lt (add_lt_add_of_le_of_lt near drift))

/-- What is printed for a number that drifted is the numeral of a unit count that is nearest to what
it drifted from. -/
theorem Drifts.exists_trimmed {n d places : Nat} {x : Float} {w : ℚ} {a : Int} (h : Drifts n x w)
    (few : n ≤ 8) (nonzero : places ≠ 0) (positive : 0 < d) (fraction : w * 10 ^ places = a / d)
    (small : |a| ≤ 10 ^ 12) :
    ∃ (m : Numeral) (k : Int), m.IsWritten ∧ trimmed places x = m.text ∧
      m.decimal.exact = k / 10 ^ places ∧ |k - w * 10 ^ places| ≤ 1 / 2 := by
  obtain ⟨s, k, printed⟩ := exists_printsUnits h.isReal places
  refine ⟨unitsNumeral places s k, s.apply k, isWritten_unitsNumeral places s k,
    printed.trimmed_eq nonzero, ?_, h.nearest few positive fraction small printed.near_value⟩
  rw [exact_unitsNumeral, cast_apply, mul_div_assoc]

/-- What is read from the numeral of a unit count is printed as that numeral. -/
theorem trimmed_of_approximates {places k : Nat} (hp : places ≤ 9) (hk : k ≤ 10 ^ places)
    (nonzero : places ≠ 0) {x : Float} (h : Approximates x (k / 10 ^ places)) :
    trimmed places x = (unitsNumeral places .positive k).text := by
  obtain ⟨s, n, printed⟩ := exists_printsUnits h.isReal places
  have small : |(k : Int)| ≤ 10 ^ 12 := by
    have most : k ≤ 10 ^ 9 := hk.trans (Nat.pow_le_pow_right (by omega) hp)
    rw [Nat.abs_cast]
    omega
  have moderate : IsModerate ((k : ℚ) / 10 ^ places) := by
    have fraction := isModerate_fraction small (by omega : places ≤ 12)
    rwa [Int.cast_natCast] at fraction
  have units : (k : ℚ) / 10 ^ places * 10 ^ places = (k : Int) / (1 : Nat) := by
    rw [div_mul_cancel₀ _ (by positivity), Nat.cast_one, div_one, Int.cast_natCast]
  have near := (Drifts.of_approximates moderate h).nearest (by omega) Nat.one_pos units small
    printed.near_value
  rw [units, Nat.cast_one, div_one] at near
  have same : s.apply n = k := eq_of_abs_sub_le_half near
  rw [printed.trimmed_eq nonzero]
  cases s with
  | positive =>
      obtain rfl : n = k := Int.ofNat.inj same
      rfl
  | negative =>
      -- a count and the opposite of a count are the same at zero only
      simp only [Sign.apply] at same
      obtain ⟨rfl, rfl⟩ : n = 0 ∧ k = 0 := by omega
      rfl

end DesignTokens.Number
