import DesignTokens.Proofs.FloatRounding

/-!
Ranges of binary64 numbers. Results of small size err by at most 2^-40, what is clamped lies in its
range, the nearest whole number of a real number is the floor of its value and a half, and a
remainder lies between zero and the divisor.
-/
namespace DesignTokens.Number

open Float.Model (UnpackedFloat)
open Float.Model.UnpackedFloat (Sign)

/-- A real number whose value lies in a closed interval. -/
structure Between (low high : ℚ) (x : Float) : Prop where
  isReal : IsReal x
  lower : low ≤ value x
  upper : value x ≤ high

theorem Approximates.between {x : Float} {w low high : ℚ} (h : Approximates x w)
    (hl : OnGrid low) (hh : OnGrid high) (lower : low ≤ w) (upper : w ≤ high) :
    Between low high x :=
  ⟨h.isReal, h.ge hl lower, h.le hh upper⟩

theorem Approximates.abs_value_le {x : Float} {w : ℚ} (h : Approximates x w) {p : Int} (hp : -1074 ≤ p)
    (bound : |w| ≤ 2 ^ p) : |value x| ≤ 2 ^ p := by
  obtain ⟨lower, upper⟩ := abs_le.1 bound
  exact abs_le.2 ⟨h.ge (onGrid_zpow hp).neg lower, h.le (onGrid_zpow hp) upper⟩

/-- A result of at most 2^p is off by at most a step of 2^(p - 51): it lies between the multiples of
that step that are next to what it stands for. -/
theorem Approximates.close_of_le {x : Float} {w : ℚ} (h : Approximates x w) {p : Int}
    (hp : -1023 ≤ p) (bound : |w| ≤ 2 ^ p) : |value x - w| ≤ 2 ^ (p - 51) := by
  let unit : ℚ := 2 ^ (p - 51)
  have positive : 0 < unit := by positivity
  have grid {n : Int} (hn : |n| < 2 ^ 53) : OnGrid (n * unit) := ⟨n, p - 51, hn, by omega, rfl⟩
  have size : (2 : ℚ) ^ p = 2 ^ 51 * unit := by
    have split : p = 51 + (p - 51) := by omega
    conv_lhs => rw [split, zpow_add₀ two_ne_zero]
    rfl
  rw [size, abs_le'] at bound
  have lower := Int.floor_le (w / unit)
  have upper := Int.lt_floor_add_one (w / unit)
  have floor : -2 ^ 51 ≤ ⌊w / unit⌋ := by
    refine Int.le_floor.2 ?_
    rw [le_div_iff₀ positive]
    push_cast
    linarith [bound.2]
  have ceiling : ⌊w / unit⌋ ≤ 2 ^ 51 := by
    have most : w / unit ≤ 2 ^ 51 := (div_le_iff₀ positive).2 bound.1
    exact_mod_cast lower.trans most
  rw [le_div_iff₀ positive] at lower
  rw [div_lt_iff₀ positive] at upper
  have below := h.ge (grid (by rw [abs_lt]; omega)) lower
  have above := h.le (grid (n := ⌊w / unit⌋ + 1) (by rw [abs_lt]; omega))
    (by push_cast; exact upper.le)
  push_cast at above
  exact abs_le.2 ⟨by linarith, by linarith⟩

/-- A step of the numbers that a result is compared with to see how far off it is. -/
def step : ℚ := 1 / 2 ^ 40

theorem step_pos : 0 < step := by norm_num [step]

theorem Approximates.close {x : Float} {w : ℚ} (h : Approximates x w) (bound : |w| ≤ 2 ^ 11) :
    |value x - w| ≤ step := by
  have near := h.close_of_le (p := 11) (by omega) bound
  rwa [show (2 : ℚ) ^ ((11 : Int) - 51) = step by norm_num [step]] at near

theorem Approximates.between_steps {x : Float} {w : ℚ} (h : Approximates x w)
    (bound : |w| ≤ 2 ^ 11) : Between (w - step) (w + step) x := by
  have close := abs_le.1 (h.close bound)
  exact ⟨h.isReal, by linarith, by linarith⟩

theorem between_add {x y : Float} (hx : IsReal x) (hy : IsReal y)
    (bound : |value x + value y| ≤ 2 ^ 11) :
    Between (value x + value y - step) (value x + value y + step) (x + y) :=
  (approximates_add hx hy (bound.trans (by norm_num))).between_steps bound

theorem between_sub {x y : Float} (hx : IsReal x) (hy : IsReal y)
    (bound : |value x - value y| ≤ 2 ^ 11) :
    Between (value x - value y - step) (value x - value y + step) (x - y) :=
  (approximates_sub hx hy (bound.trans (by norm_num))).between_steps bound

theorem between_mul {x y : Float} (hx : IsReal x) (hy : IsReal y)
    (bound : |value x * value y| ≤ 2 ^ 11) :
    Between (value x * value y - step) (value x * value y + step) (x * y) :=
  (approximates_mul hx hy (bound.trans (by norm_num))).between_steps bound

theorem between_clamp {x low high : Float} (hl : IsReal low) (hh : IsReal high)
    (h : value low ≤ value high) : Between (value low) (value high) (clamp x low high) := by
  unfold clamp larger smaller
  by_cases above : low < x
  · rw [if_pos above]
    by_cases real : IsReal x
    · have bound := (lt_iff hl real).1 above
      split_ifs with below
      · exact ⟨real, bound.le, ((lt_iff real hh).1 below).le⟩
      · exact ⟨hh, h, le_rfl⟩
    · rw [if_neg (not_lt_of_not_isReal real hl hh above)]
      exact ⟨hh, h, le_rfl⟩
  · rw [if_neg above]
    split_ifs with below
    · exact ⟨hl, le_rfl, h⟩
    · exact ⟨hh, h, le_rfl⟩

theorem floorDyadic_eq (m q : Int) : floorDyadic m q = ⌊(m * 2 ^ q : ℚ)⌋ := by
  unfold floorDyadic
  split_ifs with negative
  · obtain ⟨n, rfl⟩ : ∃ n : Nat, q = -n := ⟨(-q).toNat, by omega⟩
    rw [neg_neg, Int.toNat_natCast, Int.fdiv_eq_ediv_of_nonneg _ (Int.natCast_nonneg _), zpow_neg,
      zpow_natCast, ← div_eq_mul_inv, ← Rat.floor_intCast_div_natCast]
    norm_num
  · obtain ⟨n, rfl⟩ : ∃ n : Nat, q = n := ⟨q.toNat, by omega⟩
    rw [Int.toNat_natCast, zpow_natCast]
    have : (m * 2 ^ n : ℚ) = ((m * (2 ^ n : Nat) : Int) : ℚ) := by push_cast; rfl
    rw [this, Int.floor_intCast]
    rfl

theorem floor_eq {x : Float} (h : IsReal x) : floor x = ⌊value x⌋ := by
  obtain ⟨s, same⟩ | ⟨s, m, e, hm, same⟩ := eq_zero_or_finite h
  · rw [floor, value, same]
    simp
  · rw [floor, value, same]
    exact floorDyadic_eq _ _

theorem remainderDyadic_lt (m : Nat) (q : Int) {k : Nat} (hk : 0 < k) :
    ((remainderDyadic m q k).1 : ℚ) * 2 ^ (remainderDyadic m q k).2 < k := by
  unfold remainderDyadic
  split_ifs with negative
  · obtain ⟨n, rfl⟩ : ∃ n : Nat, q = -n := ⟨(-q).toNat, by omega⟩
    rw [neg_neg, Int.toNat_natCast, zpow_neg, zpow_natCast, ← div_eq_mul_inv,
      div_lt_iff₀ (by positivity)]
    exact_mod_cast Nat.mod_lt m (Nat.mul_pos hk (Nat.two_pow_pos n))
  · rw [zpow_zero, mul_one]
    exact_mod_cast Nat.mod_lt _ hk

theorem hasValue_zero : HasValue 0.0 0 := by
  simpa using HasValue.of_eq_ofNat (x := 0.0) (n := 0) rfl (by omega)

theorem hasValue_half : HasValue 0.5 (1 / 2) := by
  have unpacked : (0.5 : Float).toModel.unpack = .finite .positive (2 ^ 52) (-53) (by decide) := rfl
  exact .of_unpack unpacked (by norm_num [Sign.apply])

theorem between_zero {k : Nat} : Between 0 k 0.0 :=
  ⟨hasValue_zero.isReal, hasValue_zero.value_eq.ge, hasValue_zero.value_eq.le.trans k.cast_nonneg⟩

/-- Every number but an infinity and the value that is not a number leaves a real remainder. -/
theorem between_modulo (x : Float) {k : Nat} (hk : 0 < k) (small : k < 2 ^ 53) :
    Between 0 k (modulo x k) ∨ (modulo x k).toModel.unpack = .notANumber := by
  have zero := onGrid_zero
  have top := onGrid_natCast small
  have bound : (k : ℚ) ≤ 2 ^ 100 := by
    have : (k : ℚ) < 2 ^ 53 := by exact_mod_cast small
    linarith
  unfold modulo
  split
  case h_1 s m q hm _ =>
    left
    dsimp only
    split_ifs with none
    · exact between_zero
    · have below := remainderDyadic_lt m q hk
      have size : (0 : ℚ) ≤ (remainderDyadic m q k).1 * 2 ^ (remainderDyadic m q k).2 := by
        positivity
      have rest := fun s => approximates_ofDyadic s (Nat.pos_of_ne_zero none)
        (remainderDyadic m q k).2
      cases s with
      | positive =>
          have rest := rest .positive
          simp only [Sign.apply, Int.cast_one, one_mul, abs_of_nonneg size] at rest
          exact (rest (by linarith)).between zero top size below.le
      | negative =>
          have rest := rest .negative
          simp only [Sign.apply, Int.cast_neg, Int.cast_one, neg_mul, one_mul, abs_neg,
            abs_of_nonneg size] at rest
          have rest := (rest (by linarith)).between top.neg zero (by linarith) (by linarith)
          have lower := rest.lower
          have upper := rest.upper
          obtain ⟨real, divisor⟩ := hasValue_ofNat small
          have sum := approximates_add rest.isReal real
            (by rw [divisor, abs_of_nonneg] <;> linarith)
          rw [divisor] at sum
          exact sum.between zero top (by linarith) (by linarith)
  case h_2 => exact .inl between_zero
  case h_3 => exact .inr rfl
  case h_4 same => exact .inr same

/-- A number that is less than a quarter out of the range of channels is nearest to a level. -/
theorem nearest_of_between {x : Float} (h : Between (-(1 / 4)) (255 + 1 / 4) x) :
    0 ≤ nearest x ∧ nearest x ≤ 255 := by
  have lower := h.lower
  have upper := h.upper
  obtain ⟨real, half⟩ := hasValue_half
  have sum := approximates_add h.isReal real (by rw [half]; exact abs_le.2 ⟨by linarith, by linarith⟩)
  rw [half] at sum
  have close := abs_le.1 (sum.close (abs_le.2 ⟨by linarith, by linarith⟩))
  have small : step < 1 / 8 := by norm_num [step]
  rw [nearest, floor_eq sum.isReal]
  constructor
  · exact Int.floor_nonneg.2 (by linarith)
  · exact Int.lt_add_one_iff.1 (Int.floor_lt.2 (by push_cast; linarith))

theorem between_larger {a b : ℚ} {x y : Float} (hx : Between a b x) (hy : Between a b y) :
    Between a b (larger x y) ∧ value (larger x y) = max (value x) (value y) := by
  unfold larger
  have order := lt_iff hx.isReal hy.isReal
  split_ifs with h
  · exact ⟨hy, (max_eq_right (order.1 h).le).symm⟩
  · exact ⟨hx, (max_eq_left (le_of_not_gt fun less => h (order.2 less))).symm⟩

theorem between_smaller {a b : ℚ} {x y : Float} (hx : Between a b x) (hy : Between a b y) :
    Between a b (smaller x y) ∧ value (smaller x y) = min (value x) (value y) := by
  unfold smaller
  have order := lt_iff hy.isReal hx.isReal
  split_ifs with h
  · exact ⟨hy, (min_eq_right (order.1 h).le).symm⟩
  · exact ⟨hx, (min_eq_left (le_of_not_gt fun less => h (order.2 less))).symm⟩

theorem value_clamp {x low high : Float} (h : IsReal x) (hl : IsReal low) (hh : IsReal high) :
    value (clamp x low high) = min (value high) (max (value low) (value x)) := by
  have range : ∃ a b, Between a b x ∧ Between a b low ∧ Between a b high :=
    ⟨min (value x) (min (value low) (value high)), max (value x) (max (value low) (value high)),
      ⟨h, by simp, by simp⟩, ⟨hl, by simp, by simp⟩, ⟨hh, by simp, by simp⟩⟩
  obtain ⟨a, b, hx, hlow, hhigh⟩ := range
  obtain ⟨raised, larger⟩ := between_larger hlow hx
  rw [clamp, (between_smaller hhigh raised).2, larger]

/-- Every number is a multiple of the least one. -/
theorem exists_units {x : Float} (h : IsReal x) : ∃ n : Int, value x = n * 2 ^ (-1074 : Int) := by
  obtain ⟨k, j, -, least, hx⟩ := h.onGrid
  obtain ⟨n, rfl⟩ := Int.le.dest least
  refine ⟨k * 2 ^ n, ?_⟩
  rw [hx, zpow_add₀ two_ne_zero, zpow_natCast, Int.cast_mul, Int.cast_pow, Int.cast_ofNat,
    mul_assoc, mul_comm (2 ^ (-1074 : Int))]

/-- The difference of different numbers is not rounded to zero. -/
theorem value_sub_pos {x y : Float} (hx : IsReal x) (hy : IsReal y)
    (bound : |value x - value y| ≤ 2 ^ 100) (h : value y < value x) : 0 < value (x - y) := by
  have difference := approximates_sub hx hy bound
  obtain ⟨m, hm⟩ := exists_units hx
  obtain ⟨n, hn⟩ := exists_units hy
  have unit : (0 : ℚ) < 2 ^ (-1074 : Int) := by positivity
  have more : n + 1 ≤ m := by
    rw [hm, hn, mul_lt_mul_iff_left₀ unit] at h
    exact_mod_cast h
  have least : (2 : ℚ) ^ (-1074 : Int) ≤ value x - value y := by
    have : (n + 1 : ℚ) ≤ m := by exact_mod_cast more
    rw [hm, hn]
    nlinarith
  exact unit.trans_le (difference.ge (onGrid_zpow le_rfl) least)

end DesignTokens.Number
