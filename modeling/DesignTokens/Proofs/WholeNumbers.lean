import DesignTokens.Number.Decimal
import DesignTokens.Proofs.CharClasses
import DesignTokens.Proofs.FloatRanges
import DesignTokens.Proofs.TextCuts

/-!
Whole numbers in binary64. Up to 53 bits they are multiplied without rounding, are written as their
digits, and are read from their digits again.
-/
namespace DesignTokens.Number

open Float.Model (UnpackedFloat)
open Float.Model.UnpackedFloat (Sign)

/-! ### Products -/

/-- A stored number other than zero is the only one of its value. -/
theorem Stored.eq_of_rational_eq {u v : UnpackedFloat} (hu : Stored u) (hv : Stored v)
    (h : rational u = rational v) (nonzero : rational u ≠ 0) : u = v := by
  obtain ⟨s, rfl⟩ | ⟨s, m, d, hm, rfl⟩ := eq_zero_or_finite hu.isRational
  · exact absurd rfl nonzero
  obtain ⟨t, rfl⟩ | ⟨t, n, e, hn, rfl⟩ := eq_zero_or_finite hv.isRational
  · exact absurd h nonzero
  have same (h : (m : ℚ) * 2 ^ d = n * 2 ^ e) : d = e ∧ m = n := by
    have order := compare_magnitudes hu.canonical hv.canonical
    rw [h, compare_eq_iff_eq.2 rfl, Ordering.then_eq_eq] at order
    exact order.imp compare_eq_iff_eq.1 compare_eq_iff_eq.1
  have first := magnitude_pos hm d
  have second := magnitude_pos hn e
  rw [rational_finite, rational_finite] at h
  cases s <;> cases t
  · obtain ⟨rfl, rfl⟩ := same (by simpa [Sign.apply] using h)
    rfl
  · simp only [Sign.apply, Int.cast_neg, Int.cast_one] at h
    linarith
  · simp only [Sign.apply, Int.cast_neg, Int.cast_one] at h
    linarith
  · obtain ⟨rfl, rfl⟩ := same (by simpa [Sign.apply] using h)
    rfl

theorem Result.rational_eq {u : UnpackedFloat} {w : ℚ} (h : Result u w) (hw : OnGrid w) :
    rational u = w :=
  le_antisymm ((h.rounds w hw).1 le_rfl) ((h.rounds w hw).2 le_rfl)

/-- Products of one value other than zero are one number if the value needs no rounding. -/
theorem mul_eq_mul {x y x' y' : Float} {w : ℚ} (hx : IsReal x) (hy : IsReal y) (hx' : IsReal x')
    (hy' : IsReal y') (h : value x * value y = w) (h' : value x' * value y' = w)
    (grid : OnGrid w) (nonzero : w ≠ 0) : x * y = x' * y' := by
  have product := result_mul hx.stored hy.stored
  have product' := result_mul hx'.stored hy'.stored
  change Result _ (value x * value y) at product
  change Result _ (value x' * value y') at product'
  rw [h] at product
  rw [h'] at product'
  have first := product.rational_eq grid
  have second := product'.rational_eq grid
  have same := product.toStored.eq_of_rational_eq product'.toStored (first.trans second.symm)
    (first.trans_ne nonzero)
  change (⟨.pack (.mul .binary64 x.toModel.unpack y.toModel.unpack)⟩ : Float) = _
  rw [same]
  rfl

theorem ofNat_mul {m n : Nat} (positive : 0 < m * n) (small : m * n < 2 ^ 53) :
    Float.ofNat m * Float.ofNat n = Float.ofNat (m * n) := by
  have left : m < 2 ^ 53 :=
    (Nat.le_mul_of_pos_right m (Nat.pos_of_mul_pos_left positive)).trans_lt small
  have right : n < 2 ^ 53 :=
    (Nat.le_mul_of_pos_left n (Nat.pos_of_mul_pos_right positive)).trans_lt small
  obtain ⟨real_m, hm⟩ := hasValue_ofNat left
  obtain ⟨real_n, hn⟩ := hasValue_ofNat right
  obtain ⟨real, product⟩ := hasValue_toFloat small
  obtain ⟨real_one, one⟩ := hasValue_one
  have nonzero : ((m * n : Nat) : ℚ) ≠ 0 := by exact_mod_cast positive.ne'
  rw [ofNat_eq_mul small]
  refine mul_eq_mul real_m real_n real real_one ?_ ?_ (onGrid_natCast small) nonzero
  · rw [hm, hn, Nat.cast_mul]
  · rw [product, one, mul_one]

theorem ofNat_inj {m n : Nat} (hm : m < 2 ^ 53) (hn : n < 2 ^ 53) :
    Float.ofNat m = Float.ofNat n ↔ m = n := by
  refine ⟨fun same => ?_, congrArg Float.ofNat⟩
  have values := (hasValue_ofNat hm).value_eq.symm.trans (same ▸ (hasValue_ofNat hn).value_eq)
  exact_mod_cast values

theorem ofNat_beq_zero {n : Nat} (positive : 0 < n) (small : n < 2 ^ 53) :
    (Float.ofNat n == 0.0) = false := by
  obtain ⟨real, whole⟩ := hasValue_ofNat small
  rw [← Bool.not_eq_true, beq_iff real hasValue_zero.isReal, whole, hasValue_zero.value_eq]
  exact_mod_cast positive.ne'

/-! ### Digits -/

theorem digits_mul_ten {n : Nat} (h : 0 < n) : digits (10 * n) = digits n ++ ['0'] :=
  (@Nat.toDigits_append_toDigits 10 n 0 (by decide) h (by decide)).symm

theorem digits_mul_pow {n : Nat} (h : 0 < n) (places : Nat) :
    digits (n * 10 ^ places) = digits n ++ List.replicate places '0' := by
  induction places with
  | zero => rw [pow_zero, mul_one, List.replicate_zero, List.append_nil]
  | succ places ih =>
      have more : n * 10 ^ (places + 1) = 10 * (n * 10 ^ places) := by ring
      rw [more, digits_mul_ten (by positivity), ih, List.replicate_succ', List.append_assoc]

theorem digitsValue_digits (n : Nat) : Decimal.digitsValue (digits n) = n := by
  have read : Decimal.digitsValue (digits n) = Nat.ofDigitChars 10 (digits n) 0 := by
    rw [Decimal.digitsValue, Nat.ofDigitChars]
    refine List.foldl_ext _ _ _ fun value c hc => ?_
    have digit := isDigit_of_mem_digits c hc
    simp [Text.digit?, Text.lt_128_of_isDigit digit, digit]
  exact read.trans (Nat.ofDigitChars_toDigits (by decide) (by decide))

theorem roundDiv_mul (n : Nat) {d : Nat} (h : 0 < d) : roundDiv (n * d) d = n := by
  simp [roundDiv, Nat.mul_div_cancel _ h, h]

theorem scaled_of_value {m n : Nat} {e : Int} (h : (m : ℚ) * 2 ^ e = n) (places : Nat) :
    scaled m e places = n * 10 ^ places := by
  rw [scaled]
  by_cases negative : e < 0
  · obtain ⟨k, rfl⟩ : ∃ k : Nat, e = -k := ⟨(-e).toNat, by omega⟩
    have mantissa : m = n * 2 ^ k := by
      rw [zpow_neg, zpow_natCast, ← div_eq_mul_inv, div_eq_iff (by positivity)] at h
      exact_mod_cast h
    have units : m * Nat.pow 10 places = n * 10 ^ places * Nat.pow 2 k := by
      rw [mantissa]
      exact Nat.mul_right_comm n (2 ^ k) (10 ^ places)
    rw [if_pos negative, neg_neg, Int.toNat_natCast, units]
    exact roundDiv_mul _ (Nat.two_pow_pos k)
  · obtain ⟨k, rfl⟩ : ∃ k : Nat, e = k := ⟨e.toNat, by omega⟩
    have whole : m * 2 ^ k = n := by
      rw [zpow_natCast] at h
      exact_mod_cast h
    rw [if_neg negative, Int.toNat_natCast, ← whole]
    exact Nat.mul_right_comm m (10 ^ places) (2 ^ k)

theorem dropTrailing_append {c : Char} {t : Text} (h : t.getLast? ≠ some c) (k : Nat) :
    dropTrailing c (t ++ List.replicate k c) = t := by
  have run : ∀ d ∈ List.replicate k c, d == c := fun d hd => by simp [List.eq_of_mem_replicate hd]
  have stop : Text.nextIs (· == c) t.reverse = false := by
    rw [← List.head?_reverse] at h
    cases hr : t.reverse with
    | nil => rfl
    | cons d rest =>
        rw [hr] at h
        simpa [Text.nextIs] using h
  rw [dropTrailing, List.reverse_append, List.reverse_replicate,
    Text.dropWhile_append_of_nextIs run stop, List.reverse_reverse]

theorem unitsText_mul_pow {n places : Nat} (h : 0 < n) (hp : places ≠ 0) :
    unitsText places (n * 10 ^ places) = digits n ++ '.' :: List.replicate places '0' := by
  have nonempty : 0 < (digits n).length := Nat.length_toDigits_pos
  have none : places + 1 - (digits n ++ List.replicate places '0').length = 0 := by
    rw [List.length_append, List.length_replicate]
    omega
  simp only [unitsText, if_neg hp, digits_mul_pow h]
  rw [none]
  simp

theorem fixed_ofNat {n : Nat} (positive : 0 < n) (small : n < 2 ^ 53) (places : Nat) :
    fixed places (Float.ofNat n) = unitsText places (n * 10 ^ places) := by
  obtain ⟨real, whole⟩ := hasValue_ofNat small
  rw [value] at whole
  have size : (0 : ℚ) < n := by exact_mod_cast positive
  obtain ⟨s, same⟩ | ⟨s, m, e, hm, same⟩ := eq_zero_or_finite real
  · rw [same, rational_zero] at whole
    exact absurd whole size.ne
  · rw [same, rational_finite] at whole
    have mantissa := magnitude_pos hm e
    cases s with
    | negative =>
        simp only [Sign.apply, Int.cast_neg, Int.cast_one] at whole
        linarith
    | positive =>
        simp only [Sign.apply, Int.cast_one, one_mul] at whole
        simp only [fixed, same, signText, List.nil_append, scaled_of_value whole]

/-- A whole number is written as its digits. -/
theorem trimmed_ofNat {n : Nat} (positive : 0 < n) (small : n < 2 ^ 53) (places : Nat) :
    trimmed places (Float.ofNat n) = digits n := by
  have absent {c : Char} (hc : c.isDigit = false) : c ∉ digits n := fun mem => by
    simp [isDigit_of_mem_digits c mem] at hc
  have signless : digits n ≠ ['-', '0'] := by
    intro zero
    exact absent (c := '-') rfl (zero ▸ List.mem_cons_self)
  rw [trimmed, fixed_ofNat positive small]
  by_cases hp : places = 0
  · subst hp
    rw [unitsText, if_pos rfl, pow_zero, mul_one]
    simp [absent, signless]
  · have point : (digits n).getLast? ≠ some '.' := fun last =>
      absent rfl (List.mem_of_getLast? last)
    have zeros : dropTrailing '0' (digits n ++ '.' :: List.replicate places '0') =
        digits n ++ ['.'] := by
      have ends : (digits n ++ ['.']).getLast? ≠ some '0' := by simp
      have cut := dropTrailing_append ends places
      rwa [List.append_assoc] at cut
    have whole : dropTrailing '.' (digits n ++ ['.']) = digits n := dropTrailing_append point 1
    rw [unitsText_mul_pow positive hp]
    simp [zeros, whole, signless]

end DesignTokens.Number

namespace DesignTokens

/-- The number of digits alone is a whole number. -/
theorem Numeral.toFloat_whole {whole : Text} (positive : 0 < Decimal.digitsValue whole)
    (small : Decimal.digitsValue whole < 2 ^ 53) :
    toFloat ⟨false, whole, none⟩ = Float.ofNat (Decimal.digitsValue whole) := by
  have decimal : (⟨false, whole, none⟩ : Numeral).decimal =
      ⟨false, Decimal.digitsValue whole, 0⟩ := by
    simp [Numeral.decimal]
  have places : (Nat.toDigits 10 (Decimal.digitsValue whole)).length ≤ 16 :=
    (Nat.length_toDigits_le_iff (by decide) (by decide)).2 (small.trans (by decide))
  rw [Numeral.toFloat, decimal, Decimal.toFloat]
  have small_exponent : ¬ (Decimal.digitsValue whole = 0 ∨
    (0 : Int) + (Nat.toDigits 10 (Decimal.digitsValue whole)).length < -400) := by omega
  have large_exponent :
    ¬ 400 < (0 : Int) + (Nat.toDigits 10 (Decimal.digitsValue whole)).length := by omega
  simp only [small_exponent, large_exponent, if_false]
  rfl

end DesignTokens
