import DesignTokens.Proofs.WholeNumbers
import DesignTokens.Proofs.WrittenLengths

/-!
Numbers that are printed with a fixed count of decimal places and read again. What is printed is the
numeral of a whole number of units of the last place, and the unit count is nearest to the number.
What is read from it is the nearest binary64 number of that decimal (`approximates_unitsNumeral`).
-/
namespace DesignTokens

open Float.Model.UnpackedFloat (Sign)

/-- The number that a decimal stands for. -/
def Decimal.exact (d : Decimal) : ℚ :=
  (if d.negative then -1 else 1) * (d.mantissa * 10 ^ d.exponent)

namespace Number

/-! ### Units of the last place -/

theorem abs_roundDiv_sub_le (n : Nat) {d : Nat} (h : 0 < d) :
    |(roundDiv n d : ℚ) - n / d| ≤ 1 / 2 := by
  have positive : (0 : ℚ) < d := by exact_mod_cast h
  have split : (n : ℚ) = d * (n / d : Nat) + (n % d : Nat) := by
    exact_mod_cast (Nat.div_add_mod n d).symm
  have rest : ((n % d : Nat) : ℚ) < d := by exact_mod_cast Nat.mod_lt n h
  have quotient : (n : ℚ) / d = (n / d : Nat) + (n % d : Nat) / d := by
    rw [div_eq_iff positive.ne', add_mul, div_mul_cancel₀ _ positive.ne', mul_comm]
    exact split
  have below (small : 2 * (n % d) ≤ d) : ((n % d : Nat) : ℚ) / d ≤ 1 / 2 := by
    rw [div_le_iff₀ positive]
    have : ((2 * (n % d) : Nat) : ℚ) ≤ d := by exact_mod_cast small
    push_cast at this
    linarith
  have above (large : d ≤ 2 * (n % d)) : 1 / 2 ≤ ((n % d : Nat) : ℚ) / d := by
    rw [le_div_iff₀ positive]
    have : (d : ℚ) ≤ (2 * (n % d) : Nat) := by exact_mod_cast large
    push_cast at this
    linarith
  have size : 0 ≤ ((n % d : Nat) : ℚ) / d ∧ ((n % d : Nat) : ℚ) / d ≤ 1 :=
    ⟨by positivity, (div_le_one positive).2 rest.le⟩
  rw [quotient, abs_le]
  simp only [roundDiv]
  split_ifs with small large
  · have := below small.le
    constructor <;> linarith
  · have := above large.le
    push_cast
    constructor <;> linarith
  · have lower := above (by omega)
    have upper := below (by omega)
    obtain even | odd := Nat.mod_two_eq_zero_or_one (n / d)
    · rw [even]
      push_cast
      constructor <;> linarith
    · rw [odd]
      push_cast
      constructor <;> linarith

theorem abs_scaled_sub_le (m : Nat) (q : Int) (places : Nat) :
    |(scaled m q places : ℚ) - m * 2 ^ q * 10 ^ places| ≤ 1 / 2 := by
  simp only [scaled]
  split_ifs with negative
  · obtain ⟨k, rfl⟩ : ∃ k : Nat, q = -k := ⟨(-q).toNat, by omega⟩
    have rounded := abs_roundDiv_sub_le (m * Nat.pow 10 places) (Nat.two_pow_pos k)
    have same : ((m * Nat.pow 10 places : Nat) : ℚ) / (2 ^ k : Nat) =
        m * 2 ^ (-k : Int) * 10 ^ places := by
      rw [zpow_neg, zpow_natCast, Nat.pow_eq]
      push_cast
      ring
    rw [same] at rounded
    rw [neg_neg, Int.toNat_natCast]
    exact rounded
  · obtain ⟨k, rfl⟩ : ∃ k : Nat, q = k := ⟨q.toNat, by omega⟩
    have same : ((m * Nat.pow 10 places * Nat.pow 2 k : Nat) : ℚ) =
        m * 2 ^ (k : Int) * 10 ^ places := by
      rw [zpow_natCast, Nat.pow_eq, Nat.pow_eq]
      push_cast
      ring
    rw [Int.toNat_natCast, same, sub_self, abs_zero]
    norm_num

/-- What is printed for a real number: its sign and the unit count that is nearest to its size. -/
structure PrintsUnits (x : Float) (places : Nat) (s : Sign) (k : Nat) : Prop where
  fixed_eq : fixed places x = signText s ++ unitsText places k
  value_eq : value x = s.apply 1 * |value x|
  near : |(k : ℚ) - |value x| * 10 ^ places| ≤ 1 / 2

theorem exists_printsUnits {x : Float} (h : IsReal x) (places : Nat) :
    ∃ s k, PrintsUnits x places s k := by
  obtain ⟨s, same⟩ | ⟨s, m, e, hm, same⟩ := eq_zero_or_finite h
  · have zero : value x = 0 := by rw [value, same, rational_zero]
    exact ⟨s, 0, by simp only [fixed, same], by simp [zero], by norm_num [zero]⟩
  · have size := magnitude_pos hm e
    have whole : value x = s.apply 1 * (m * 2 ^ e) := by rw [value, same, rational_finite]
    have absolute : |value x| = m * 2 ^ e := by
      rw [whole]
      cases s <;> simp [Sign.apply, abs_of_pos size]
    exact ⟨s, scaled m e places, by simp only [fixed, same], by rw [absolute, whole],
      by rw [absolute]; exact abs_scaled_sub_le m e places⟩

/-! ### Numerals of units -/

theorem exists_dropTrailing (c : Char) (t : Text) :
    ∃ k, t = dropTrailing c t ++ List.replicate k c ∧ (dropTrailing c t).getLast? ≠ some c := by
  have split := List.takeWhile_append_dropWhile (p := (· == c)) (l := t.reverse)
  have run : t.reverse.takeWhile (· == c) =
      List.replicate (t.reverse.takeWhile (· == c)).length c :=
    List.eq_replicate_of_mem fun d hd => by simpa using List.mem_takeWhile_imp hd
  refine ⟨(t.reverse.takeWhile (· == c)).length, ?_, ?_⟩
  · rw [dropTrailing, ← List.reverse_replicate, ← run, ← List.reverse_append, split,
      List.reverse_reverse]
  · have next := Text.nextIs_dropWhile (· == c) t.reverse
    rw [dropTrailing, List.getLast?_reverse]
    cases hr : t.reverse.dropWhile (· == c) with
    | nil => simp
    | cons d rest =>
        rw [hr] at next
        simpa [Text.nextIs] using next

theorem digitsValue_append_zeros (t : Text) (k : Nat) :
    Decimal.digitsValue (t ++ List.replicate k '0') = Decimal.digitsValue t * 10 ^ k := by
  induction k with
  | zero => simp
  | succ k ih =>
      have zero : (Text.digit? '0').getD 0 = 0 := by decide
      rw [List.replicate_succ', ← List.append_assoc, Decimal.digitsValue, List.foldl_append,
        ← Decimal.digitsValue, ih, List.foldl_cons, List.foldl_nil, zero]
      ring

theorem digitsValue_zeros_append (k : Nat) (t : Text) :
    Decimal.digitsValue (List.replicate k '0' ++ t) = Decimal.digitsValue t := by
  have zeros : List.foldl (fun n c => 10 * n + (Text.digit? c).getD 0) 0 (List.replicate k '0') =
      0 := by
    induction k with
    | zero => rfl
    | succ k ih => exact ih
  rw [Decimal.digitsValue, List.foldl_append, zeros, Decimal.digitsValue]

/-- The digits of a unit count, with zeros in front so that at least one stands before the point. -/
def paddedDigits (places k : Nat) : Text :=
  List.replicate (places + 1 - (digits k).length) '0' ++ digits k

def wholePart (places k : Nat) : Text :=
  (paddedDigits places k).take ((paddedDigits places k).length - places)

def fractionPart (places k : Nat) : Text :=
  (paddedDigits places k).drop ((paddedDigits places k).length - places)

theorem wholePart_append_fractionPart (places k : Nat) :
    wholePart places k ++ fractionPart places k = paddedDigits places k :=
  List.take_append_drop _ _

theorem length_fractionPart (places k : Nat) : (fractionPart places k).length = places := by
  rw [fractionPart, List.length_drop, paddedDigits, List.length_append, List.length_replicate]
  omega

theorem wholePart_ne_nil (places k : Nat) : wholePart places k ≠ [] := by
  intro none
  have count := congrArg List.length (wholePart_append_fractionPart places k)
  rw [none, List.nil_append, length_fractionPart, paddedDigits, List.length_append,
    List.length_replicate] at count
  omega

theorem isDigit_of_mem_parts {places k : Nat} :
    ∀ c ∈ wholePart places k ++ fractionPart places k, c.isDigit := by
  intro c hc
  rw [wholePart_append_fractionPart] at hc
  rcases List.mem_append.1 hc with zero | digit
  · rw [List.eq_of_mem_replicate zero]
    rfl
  · exact isDigit_of_mem_digits c digit

theorem digitsValue_parts (places k : Nat) :
    Decimal.digitsValue (wholePart places k ++ fractionPart places k) = k := by
  rw [wholePart_append_fractionPart, paddedDigits, digitsValue_zeros_append, digitsValue_digits]

/-- The numeral of a unit count: no zeros end its fraction, and a zero has no sign. -/
def unitsNumeral (places : Nat) (s : Sign) (k : Nat) : Numeral :=
  let fraction := dropTrailing '0' (fractionPart places k)
  ⟨!(signText s).isEmpty && k != 0, wholePart places k,
    if fraction = [] then none else some fraction⟩

theorem negative_unitsNumeral (places : Nat) (s : Sign) (k : Nat) :
    (unitsNumeral places s k).negative = (!(signText s).isEmpty && k != 0) := rfl

theorem getD_fraction_unitsNumeral (places : Nat) (s : Sign) (k : Nat) :
    (unitsNumeral places s k).fraction.getD [] = dropTrailing '0' (fractionPart places k) := by
  simp only [unitsNumeral]
  split_ifs with none
  · exact none.symm
  · rfl

theorem decimal_unitsNumeral (places : Nat) (s : Sign) (k : Nat) :
    ∃ j ≤ places, (unitsNumeral places s k).decimal.exponent = -((places - j : Nat) : Int) ∧
      (unitsNumeral places s k).decimal.mantissa * 10 ^ j = k := by
  obtain ⟨j, hj, -⟩ := exists_dropTrailing '0' (fractionPart places k)
  have count := congrArg List.length hj
  rw [List.length_append, List.length_replicate, length_fractionPart] at count
  refine ⟨j, by omega, ?_, ?_⟩
  · rw [Numeral.decimal, getD_fraction_unitsNumeral]
    dsimp only
    omega
  · have whole := digitsValue_parts places k
    rw [hj, ← List.append_assoc, digitsValue_append_zeros] at whole
    rw [Numeral.decimal, getD_fraction_unitsNumeral]
    exact whole

/-- The numeral of a unit count stands for that many units. -/
theorem exact_unitsNumeral (places : Nat) (s : Sign) (k : Nat) :
    (unitsNumeral places s k).decimal.exact = s.apply 1 * (k / 10 ^ places) := by
  obtain ⟨j, hj, exponent, mantissa⟩ := decimal_unitsNumeral places s k
  have negative : (unitsNumeral places s k).decimal.negative =
      (!(signText s).isEmpty && k != 0) := rfl
  have units : ((unitsNumeral places s k).decimal.mantissa : ℚ) *
      10 ^ (unitsNumeral places s k).decimal.exponent = k / 10 ^ places := by
    have split : -((places - j : Nat) : Int) = (j : Int) - (places : Int) := by omega
    have whole : ((unitsNumeral places s k).decimal.mantissa : ℚ) * 10 ^ j = k := by
      exact_mod_cast mantissa
    rw [exponent, split, zpow_sub₀ (by norm_num), zpow_natCast, zpow_natCast, ← mul_div_assoc,
      whole]
  rw [Decimal.exact, units, negative]
  cases s with
  | positive => simp [signText, Sign.apply]
  | negative => by_cases zero : k = 0 <;> simp [signText, Sign.apply, zero]

theorem isWritten_unitsNumeral (places : Nat) (s : Sign) (k : Nat) :
    (unitsNumeral places s k).IsWritten := by
  have digit : ∀ c ∈ wholePart places k ++ fractionPart places k, Text.isDigit c := fun c hc =>
    Text.isDigit_of_ascii (isDigit_of_mem_parts c hc)
  refine ⟨fun c hc => digit c (List.mem_append_left _ hc), ?_, fun _ => wholePart_ne_nil places k⟩
  intro f hf
  simp only [unitsNumeral] at hf
  split_ifs at hf with none
  cases hf
  obtain ⟨j, hj, -⟩ := exists_dropTrailing '0' (fractionPart places k)
  refine ⟨none, fun c hc => digit c (List.mem_append_right _ ?_)⟩
  rw [hj]
  exact List.mem_append_left _ hc

theorem size_unitsNumeral (places : Nat) (s : Sign) (k : Nat) :
    (unitsNumeral places s k).size = wholePart places k ++
      if dropTrailing '0' (fractionPart places k) = [] then []
      else '.' :: dropTrailing '0' (fractionPart places k) := by
  simp only [Numeral.size, unitsNumeral]
  split_ifs <;> rfl

theorem size_unitsNumeral_eq_zero_iff {places k : Nat} {s : Sign} :
    (unitsNumeral places s k).size = ['0'] ↔ k = 0 := by
  constructor
  · intro h
    obtain ⟨j, -, -, units⟩ := decimal_unitsNumeral places s k
    obtain ⟨c, rest, hw⟩ := List.exists_cons_of_ne_nil (wholePart_ne_nil places k)
    rw [size_unitsNumeral, hw, List.cons_append, List.cons.injEq, List.append_eq_nil_iff] at h
    obtain ⟨rfl, rfl, none⟩ := h
    have fraction : dropTrailing '0' (fractionPart places k) = [] := by
      by_contra some
      rw [if_neg some] at none
      cases none
    rw [Numeral.decimal, getD_fraction_unitsNumeral, fraction, unitsNumeral, hw] at units
    rw [← units]
    exact Nat.zero_mul _
  · rintro rfl
    have padded : paddedDigits places 0 = '0' :: List.replicate places '0' := by
      have zero : digits 0 = ['0'] := rfl
      rw [paddedDigits, zero, List.length_singleton, Nat.add_sub_cancel, ← List.replicate_succ',
        List.replicate_succ]
    have none : dropTrailing '0' (List.replicate places '0') = [] := by
      have cut := dropTrailing_append (c := '0') (t := []) (by simp) places
      rwa [List.nil_append] at cut
    rw [size_unitsNumeral, wholePart, fractionPart, padded]
    simp [none]

/-! ### Printing -/

theorem dropTrailing_fraction {front fraction : Text} (hfront : '.' ∉ front)
    (hfraction : '.' ∉ fraction) :
    dropTrailing '.' (dropTrailing '0' (front ++ '.' :: fraction)) =
      front ++ if dropTrailing '0' fraction = [] then [] else '.' :: dropTrailing '0' fraction := by
  obtain ⟨k, hk, last⟩ := exists_dropTrailing '0' fraction
  have inside : '.' ∉ dropTrailing '0' fraction := fun mem =>
    hfraction (by rw [hk]; exact List.mem_append_left _ mem)
  have zeros : dropTrailing '0' (front ++ '.' :: fraction) =
      front ++ '.' :: dropTrailing '0' fraction := by
    have ends : (front ++ '.' :: dropTrailing '0' fraction).getLast? ≠ some '0' := by
      rw [List.getLast?_append_cons]
      cases hf : dropTrailing '0' fraction with
      | nil => simp
      | cons c rest =>
          rw [List.getLast?_cons_cons, ← hf]
          exact last
    have cut := dropTrailing_append ends k
    rwa [List.append_assoc, List.cons_append, ← hk] at cut
  rw [zeros]
  cases hf : dropTrailing '0' fraction with
  | nil =>
      have ends : front.getLast? ≠ some '.' := fun point => hfront (List.mem_of_getLast? point)
      rw [if_pos rfl, List.append_nil]
      exact dropTrailing_append ends 1
  | cons c rest =>
      have ends : (front ++ '.' :: c :: rest).getLast? ≠ some '.' := by
        rw [List.getLast?_append_cons, List.getLast?_cons_cons, ← hf]
        exact fun point => inside (List.mem_of_getLast? point)
      have kept := dropTrailing_append ends 0
      rw [List.replicate_zero, List.append_nil] at kept
      rw [kept, if_neg (List.cons_ne_nil _ _)]

theorem PrintsUnits.trimmed_eq {x : Float} {places k : Nat} {s : Sign}
    (h : PrintsUnits x places s k) (hp : places ≠ 0) :
    trimmed places x = (unitsNumeral places s k).text := by
  have text : fixed places x =
      (signText s ++ wholePart places k) ++ '.' :: fractionPart places k := by
    rw [h.fixed_eq, unitsText, if_neg hp, List.append_assoc]
    rfl
  have none : '.' ∉ wholePart places k ++ fractionPart places k := fun mem => by
    cases isDigit_of_mem_parts '.' mem
  rw [List.mem_append, not_or] at none
  have front : '.' ∉ signText s ++ wholePart places k := by
    rw [List.mem_append, not_or]
    exact ⟨by cases s <;> simp [signText], none.1⟩
  have dropped := dropTrailing_fraction front none.2
  rw [← text, List.append_assoc, ← size_unitsNumeral places s k] at dropped
  have point : (fixed places x).contains '.' := by simp [text]
  rw [trimmed, if_pos point, dropped, Numeral.text_eq, negative_unitsNumeral]
  cases s with
  | positive =>
      have other : (unitsNumeral places .positive k).size ≠ ['-', '0'] := by
        have written := (isWritten_unitsNumeral places .positive k).size_ne_minus []
        intro same
        simp [same] at written
      simp [signText, other]
  | negative =>
      by_cases zero : k = 0
      · have size : (unitsNumeral places .negative k).size = ['0'] :=
          size_unitsNumeral_eq_zero_iff.2 zero
        subst zero
        simp [signText, size]
      · have other : (unitsNumeral places .negative k).size ≠ ['0'] :=
          fun same => zero (size_unitsNumeral_eq_zero_iff.1 same)
        simp [signText, other, zero]

end Number

/-! ### Reading -/

namespace Decimal

theorem scanSign_text {n : Numeral} (h : n.IsWritten) : scanSign n.text = (n.negative, n.size) := by
  rw [Numeral.text_eq]
  cases n.negative with
  | true => rfl
  | false =>
      have unsigned {c : Char} (hc : Text.isDigit c = false) (point : c ≠ '.') (rest : Text) :
          n.size ≠ c :: rest := by
        intro same
        rcases h.mem_size_cases c (same ▸ List.mem_cons_self) with digit | dot
        · simp [hc] at digit
        · exact point dot
      simp only [Bool.false_eq_true, if_false, List.nil_append]
      unfold scanSign
      split
      · exact absurd ‹_› (unsigned rfl (by decide) _)
      · exact absurd ‹_› (unsigned rfl (by decide) _)
      · rfl

/-- A written numeral is read as a whole. -/
theorem scan?_text {n : Numeral} (h : n.IsWritten) : scan? n.text = some (n.decimal, []) := by
  rw [scan?, scanSign_text h]
  obtain ⟨negative, whole, fraction⟩ := n
  cases fraction with
  | none =>
      have split : splitDigits whole = (whole, []) := Numeral.splitDigits_of_digits h.whole
      have written : whole.isEmpty = false := by simpa using h.written rfl
      simp [Numeral.size, split, written, scanExponent, Numeral.decimal]
  | some digits =>
      obtain ⟨nonempty, digit⟩ := h.fraction digits rfl
      have split : splitDigits (whole ++ '.' :: digits) = (whole, '.' :: digits) :=
        Numeral.splitDigits_append h.whole rfl
      have fraction : splitDigits digits = (digits, []) := Numeral.splitDigits_of_digits digit
      have written : digits.isEmpty = false := by simpa using nonempty
      simp [Numeral.size, split, fraction, written, scanExponent, Numeral.decimal]

end Decimal

namespace Number

theorem hasValue_powerOfTen {e : Nat} (h : e ≤ 9)
    (inside : e < Float.exactlyRepresentablePowersOfTen.size) :
    HasValue Float.exactlyRepresentablePowersOfTen[e] (10 ^ e : Nat) := by
  have small : 10 ^ e < 2 ^ 53 := (Nat.pow_le_pow_right (by omega) h).trans_lt (by norm_num)
  refine .of_eq_ofNat ?_ small
  interval_cases e <;> rfl

theorem abs_fraction_le {m : Nat} (hm : m < 2 ^ 53) (e : Nat) :
    |(m : ℚ) / 10 ^ e| ≤ 2 ^ 100 := by
  have most : (m : ℚ) / 10 ^ e ≤ m := div_le_self (Nat.cast_nonneg m) (one_le_pow₀ (by norm_num))
  rw [abs_of_nonneg (by positivity)]
  exact most.trans ((le_abs_self _).trans (abs_natCast_le hm))

theorem approximates_ofScientific {m e : Nat} (hm : m < 2 ^ 53) (he : e ≤ 9) :
    Approximates (Float.ofScientific m true e) (m / 10 ^ e) ∧
      Approximates (Float.ofScientific m false 0) m := by
  have scientific : m < 2 ^ 53 ∧ e ≤ 22 := ⟨hm, by omega⟩
  have whole : m < 2 ^ 53 ∧ 0 ≤ 22 := ⟨hm, by omega⟩
  obtain ⟨realSize, size⟩ := hasValue_toFloat hm
  constructor
  · obtain ⟨realPower, power⟩ := hasValue_powerOfTen he
      (lt_of_le_of_lt scientific.2 (by decide))
    have quotient := approximates_div realSize realPower
      (by rw [power]; positivity) (by rw [size, power]; push_cast; exact abs_fraction_le hm e)
    rw [size, power] at quotient
    push_cast at quotient
    rw [Float.ofScientific, dif_pos scientific]
    exact quotient
  · obtain ⟨realOne, one⟩ := hasValue_one
    have product := approximates_mul realSize realOne
      (by rw [size, one, mul_one]; exact abs_natCast_le hm)
    rw [size, one, mul_one] at product
    rw [Float.ofScientific, dif_pos whole]
    exact product

theorem approximates_toFloat {m e : Nat} (hm : m < 2 ^ 53) (he : e ≤ 9) :
    Approximates (Decimal.toFloat ⟨false, m, -(e : Int)⟩) (m / 10 ^ e) := by
  have places : (Nat.toDigits 10 m).length ≤ 16 :=
    (Nat.length_toDigits_le_iff (by decide) (by decide)).2 (hm.trans (by decide))
  obtain ⟨parts, whole⟩ := approximates_ofScientific hm he
  by_cases zero : m = 0
  · subst zero
    simpa [Decimal.toFloat] using hasValue_zero.approximates
  · have small : ¬ (m = 0 ∨ -(e : Int) + (Nat.toDigits 10 m).length < -400) := by omega
    have large : ¬ 400 < -(e : Int) + (Nat.toDigits 10 m).length := by omega
    rw [Decimal.toFloat]
    dsimp only
    rw [if_neg (by decide), if_neg small, if_neg large]
    split_ifs with fraction
    · rw [neg_neg, Int.toNat_natCast]
      exact parts
    · obtain rfl : e = 0 := by omega
      rw [pow_zero, div_one]
      exact whole

/-- A decimal that is not too long is read as the number next to what it stands for. -/
theorem approximates_exact {d : Decimal} {e : Nat} (hm : d.mantissa < 2 ^ 53) (he : e ≤ 9)
    (exponent : d.exponent = -(e : Int)) : Approximates d.toFloat d.exact := by
  obtain ⟨negative, m, _⟩ := d
  dsimp only at exponent hm
  subst exponent
  have size := approximates_toFloat hm he
  have exact : (⟨negative, m, -(e : Int)⟩ : Decimal).exact =
      (if negative then -1 else 1) * (m / 10 ^ e) := by
    rw [Decimal.exact, zpow_neg, zpow_natCast, div_eq_mul_inv]
  rw [exact]
  cases negative with
  | false => simpa using size
  | true =>
      have bound : |value _| ≤ 2 ^ 100 :=
        size.abs_value_le (p := 100) (by omega) (abs_fraction_le hm e)
      have opposite := size.neg bound
      simpa [Decimal.toFloat] using opposite

section Units

variable {places k : Nat} (hp : places ≤ 9) (hk : k ≤ 10 ^ places)
include hk

theorem units_range : (0 : ℚ) ≤ k / 10 ^ places ∧ (k : ℚ) / 10 ^ places ≤ 1 := by
  refine ⟨by positivity, (div_le_one (by positivity)).2 ?_⟩
  exact_mod_cast hk

include hp

/-- The numeral of a unit count is read as the number next to its value. -/
theorem approximates_unitsNumeral (s : Sign) :
    Approximates (unitsNumeral places s k).toFloat (s.apply 1 * (k / 10 ^ places)) := by
  obtain ⟨j, hj, exponent, mantissa⟩ := decimal_unitsNumeral places s k
  have least : 1 ≤ 10 ^ j := Nat.one_le_pow _ _ (by omega)
  have most : (unitsNumeral places s k).decimal.mantissa ≤ 10 ^ 9 :=
    ((Nat.le_mul_of_pos_right _ least).trans_eq mantissa).trans
      (hk.trans (Nat.pow_le_pow_right (by omega) hp))
  rw [← exact_unitsNumeral]
  exact approximates_exact (by omega) (by omega) exponent

end Units

end Number

theorem Numeral.IsWritten.solid {n : Numeral} (h : n.IsWritten) :
    ∀ c ∈ n.text, Text.isBlank c = false := fun c hc =>
  Length.not_isBlank_of_joinsNext (h.joinsNext c hc)

theorem Decimal.floatAtStart_text {n : Numeral} (h : n.IsWritten) (default : Float) :
    floatAtStart default n.text = n.toFloat := by
  have start : Text.trimLeft n.text = n.text := by
    obtain ⟨c, rest, text⟩ := List.exists_cons_of_ne_nil h.text_ne_nil
    have solid := h.solid c (text ▸ List.mem_cons_self)
    rw [text, Text.trimLeft, List.dropWhile_cons, solid]
    rfl
  rw [floatAtStart, leading?, start, scan?_text h]
  rfl

end DesignTokens
