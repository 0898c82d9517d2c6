import DesignTokens.Color.Dark
import DesignTokens.Proofs.FloatRanges
import DesignTokens.Proofs.Results

/-!
Channels of colors between two models. A color with channels from 0 to 255 has a hue, a saturation
and a lightness, since neither divisor of the saturation is zero. The way back rounds real numbers
only, and gives channels from 0 to 255 whatever hue, saturation and lightness are.
-/
namespace DesignTokens

open Number

/-- Each channel is a real number from 0 to 255. -/
structure Rgba.InRange (c : Rgba) : Prop where
  red : Between 0 255 c.red
  green : Between 0 255 c.green
  blue : Between 0 255 c.blue

theorem Rgba.finite?_of_inRange {c : Rgba} (h : c.InRange) : c.finite? = .ok c := by
  have red := wholeFault?_eq_none_iff.2 h.red.isReal
  have green := wholeFault?_eq_none_iff.2 h.green.isReal
  have blue := wholeFault?_eq_none_iff.2 h.blue.isReal
  simp only [finite?, List.findSome?, red, green, blue]

namespace Number

theorem divide_eq_ok {x y : Float} (hy : IsReal y) (h : value y ≠ 0) :
    divide x y = .ok (x / y) := by
  obtain ⟨real, zero⟩ := hasValue_zero
  rw [divide, if_neg]
  rw [beq_iff hy real, zero]
  exact h

theorem hasValue_two : HasValue 2.0 2 := .of_eq_ofNat (n := 2) rfl (by omega)

theorem hasValue_six : HasValue 6.0 6 := .of_eq_ofNat (n := 6) rfl (by omega)

theorem hasValue_top : HasValue 255.0 255 := .of_eq_ofNat (n := 255) rfl (by omega)

theorem hasValue_sixth : HasValue (1.0 / 6.0) (6004799503160661 / 2 ^ 55) := by
  have unpacked : (1.0 / 6.0 : Float).toModel.unpack =
      .finite .positive 6004799503160661 (-55) (by decide) := rfl
  exact .of_unpack unpacked (by norm_num [Float.Model.UnpackedFloat.Sign.apply])

theorem hasValue_thirds : HasValue (2.0 / 3.0) (6004799503160661 / 2 ^ 53) := by
  have unpacked : (2.0 / 3.0 : Float).toModel.unpack =
      .finite .positive 6004799503160661 (-53) (by decide) := rfl
  exact .of_unpack unpacked (by norm_num [Float.Model.UnpackedFloat.Sign.apply])

theorem hasValue_middle : HasValue (1.0 / 2.0) (1 / 2) := by
  have unpacked : (1.0 / 2.0 : Float).toModel.unpack =
      .finite .positive (2 ^ 52) (-53) (by decide) := rfl
  exact .of_unpack unpacked (by norm_num [Float.Model.UnpackedFloat.Sign.apply])

theorem between_unitClamp (x : Float) : Between 0 1 (clamp x 0.0 1.0) := by
  obtain ⟨realZero, zero⟩ := hasValue_zero
  obtain ⟨realOne, one⟩ := hasValue_one
  have range := between_clamp (x := x) realZero realOne (by rw [zero, one]; norm_num)
  rwa [zero, one] at range

theorem between_channelClamp (x : Float) : Between 0 255 (clamp x 0.0 255.0) := by
  obtain ⟨realZero, zero⟩ := hasValue_zero
  obtain ⟨realTop, top⟩ := hasValue_top
  have range := between_clamp (x := x) realZero realTop (by rw [zero, top]; norm_num)
  rwa [zero, top] at range

theorem between_level {n : Int} (h : 0 ≤ n ∧ n ≤ 255) : Between 0 255 (Float.ofInt n) := by
  obtain ⟨k, rfl⟩ := Int.eq_ofNat_of_zero_le h.1
  obtain ⟨real, same⟩ := hasValue_ofNat (n := k) (by omega)
  have upper : (k : ℚ) ≤ 255 := by exact_mod_cast (show k ≤ 255 by omega)
  exact ⟨real, same.ge.trans' k.cast_nonneg, same.le.trans upper⟩

end Number

namespace Hsl

/-! ### From red, green and blue -/

theorem between_fraction {x : Float} (h : Between 0 255 x) : Between 0 1 (x / 255.0) := by
  have lower := h.lower
  have upper := h.upper
  obtain ⟨real, top⟩ := hasValue_top
  have least : 0 ≤ value x / 255 := by positivity
  have most : value x / 255 ≤ 1 := by linarith
  have quotient := approximates_div h.isReal real (by rw [top]; norm_num)
    (by rw [top, abs_of_nonneg least]; linarith)
  rw [top] at quotient
  exact quotient.between onGrid_zero onGrid_one least most

/-- The divisor of the saturation of a light color. -/
theorem light_divisor_ne_zero {low high : Float} (hl : Between 0 1 low) (hh : Between 0 1 high)
    (h : value low < value high) :
    IsReal (2.0 - high - low) ∧ value (2.0 - high - low) ≠ 0 := by
  have low0 := hl.lower
  have high1 := hh.upper
  obtain ⟨real, two⟩ := hasValue_two
  have rest := approximates_sub real hh.isReal
    (by rw [two]; exact abs_le.2 ⟨by linarith, by linarith⟩)
  rw [two] at rest
  have least := rest.ge onGrid_one (by linarith)
  have most := rest.le (onGrid_natCast (n := 2) (by omega)) (by push_cast; linarith)
  push_cast at most
  have bound : |value (2.0 - high) - value low| ≤ 2 ^ 100 :=
    abs_le.2 ⟨by linarith, by linarith⟩
  have difference := approximates_sub rest.isReal hl.isReal bound
  exact ⟨difference.isReal, (value_sub_pos rest.isReal hl.isReal bound (by linarith)).ne'⟩

/-- The divisor of the saturation of a dark color. -/
theorem dark_divisor_ne_zero {low high : Float} (hl : Between 0 1 low) (hh : Between 0 1 high)
    (h : value low < value high) : IsReal (high + low) ∧ value (high + low) ≠ 0 := by
  have low0 := hl.lower
  have high1 := hh.upper
  have sum := approximates_add hh.isReal hl.isReal (abs_le.2 ⟨by linarith, by linarith⟩)
  have more := sum.ge hh.isReal.onGrid (by linarith)
  exact ⟨sum.isReal, by linarith⟩

theorem exists_ofRgba {c : Rgba} (h : c.InRange) : ∃ hsl, ofRgba c = .ok hsl := by
  have r := between_fraction h.red
  have g := between_fraction h.green
  have b := between_fraction h.blue
  obtain ⟨high, top⟩ := between_larger (between_larger r g).1 b
  obtain ⟨low, bottom⟩ := between_smaller (between_smaller r g).1 b
  have order : value (smaller (smaller (c.red / 255.0) (c.green / 255.0)) (c.blue / 255.0)) ≤
      value (larger (larger (c.red / 255.0) (c.green / 255.0)) (c.blue / 255.0)) := by
    rw [top, bottom]
    exact (min_le_right _ _).trans (le_max_right _ _)
  unfold ofRgba
  dsimp only
  clear top bottom
  generalize larger (larger (c.red / 255.0) (c.green / 255.0)) (c.blue / 255.0) = x at *
  generalize smaller (smaller (c.red / 255.0) (c.green / 255.0)) (c.blue / 255.0) = y at *
  have delta := approximates_sub high.isReal low.isReal
    (abs_le.2 ⟨by linarith [high.lower, low.upper], by linarith [high.upper, low.lower]⟩)
  by_cases flat : x - y == 0.0
  · rw [if_pos flat]
    exact ⟨_, rfl⟩
  · have different : value y < value x := by
      apply lt_of_le_of_ne order
      intro same
      apply flat
      rw [beq_iff delta.isReal hasValue_zero.isReal, hasValue_zero.value_eq]
      rw [same, sub_self] at delta
      exact delta.value_eq onGrid_zero
    obtain ⟨realLight, light⟩ := light_divisor_ne_zero low high different
    obtain ⟨realDark, dark⟩ := dark_divisor_ne_zero low high different
    rw [if_neg flat, divide_eq_ok realLight light, divide_eq_ok realDark dark]
    split_ifs <;> exact ⟨_, rfl⟩

/-! ### To red, green and blue -/

/-- Nearly in the unit interval: the two levels between which a channel lies. -/
abbrev NearUnit (x : Float) : Prop := Between (-(1 / 2 ^ 30)) (1 + 1 / 2 ^ 30) x

/-- As near as a channel comes to the unit interval. -/
abbrev IsShare (x : Float) : Prop := Between (-(1 / 2 ^ 20)) (1 + 1 / 2 ^ 20) x

theorem NearUnit.isShare {x : Float} (h : NearUnit x) : IsShare x :=
  ⟨h.isReal, by linarith [h.lower], by linarith [h.upper]⟩

/-- The lower level is as far below the lightness as the upper one is above it. -/
theorem nearUnit_lower {l q : Float} {u : ℚ} (hl : Between 0 1 l)
    (hq : Between (u - 4 * step) (u + 4 * step) q) (hu : 0 ≤ u ∧ u ≤ 1)
    (h : 0 ≤ 2 * value l - u ∧ 2 * value l - u ≤ 1) : NearUnit q ∧ NearUnit (2.0 * l - q) := by
  have small : step = 1 / 2 ^ 40 := rfl
  have l0 := hl.lower
  have l1 := hl.upper
  have q0 := hq.lower
  have q1 := hq.upper
  obtain ⟨real, two⟩ := hasValue_two
  have twice := between_mul real hl.isReal
    (by rw [two]; exact abs_le.2 ⟨by linarith, by linarith⟩)
  rw [two] at twice
  have t0 := twice.lower
  have t1 := twice.upper
  have rest := between_sub twice.isReal hq.isReal (abs_le.2 ⟨by linarith, by linarith⟩)
  exact ⟨⟨hq.isReal, by linarith, by linarith⟩,
    ⟨rest.isReal, by linarith [rest.lower], by linarith [rest.upper]⟩⟩

theorem nearUnit_levels_dark {l s : Float} (hl : Between 0 1 l) (hs : Between 0 1 s)
    (h : value l < 1 / 2) :
    NearUnit (l * (1.0 + s)) ∧ NearUnit (2.0 * l - l * (1.0 + s)) := by
  have l0 := hl.lower
  have s0 := hs.lower
  have s1 := hs.upper
  have product : 0 ≤ value l * value s := mul_nonneg l0 s0
  have productL : value l * value s ≤ value l := mul_le_of_le_one_right l0 s1
  have small : step = 1 / 2 ^ 40 := rfl
  obtain ⟨real, one⟩ := hasValue_one
  have sum := between_add real hs.isReal (by rw [one]; exact abs_le.2 ⟨by linarith, by linarith⟩)
  rw [one] at sum
  have low : value l * (1 + value s - step) ≤ value l * value (1.0 + s) := by
    gcongr
    exact sum.lower
  have high : value l * value (1.0 + s) ≤ value l * (1 + value s + step) := by
    gcongr
    exact sum.upper
  have drift : value l * step ≤ step := mul_le_of_le_one_left step_pos.le (by linarith)
  have level := between_mul hl.isReal sum.isReal (abs_le.2 ⟨by linarith, by linarith⟩)
  apply nearUnit_lower (u := value l + value l * value s) hl _ ⟨by linarith, by linarith⟩
    ⟨by linarith, by linarith⟩
  exact ⟨level.isReal, by linarith [level.lower], by linarith [level.upper]⟩

theorem nearUnit_levels_light {l s : Float} (hl : Between 0 1 l) (hs : Between 0 1 s)
    (h : 1 / 2 ≤ value l) :
    NearUnit (l + s - l * s) ∧ NearUnit (2.0 * l - (l + s - l * s)) := by
  have l0 := hl.lower
  have l1 := hl.upper
  have s0 := hs.lower
  have s1 := hs.upper
  have productS : value l * value s ≤ value s := mul_le_of_le_one_left s0 l1
  have productL : value l * value s ≤ value l := mul_le_of_le_one_right l0 s1
  have product : 0 ≤ value l * value s := mul_nonneg l0 s0
  have small : step = 1 / 2 ^ 40 := rfl
  have sum := between_add hl.isReal hs.isReal (abs_le.2 ⟨by linarith, by linarith⟩)
  have both := between_mul hl.isReal hs.isReal (abs_le.2 ⟨by linarith, by linarith⟩)
  have sum0 := sum.lower
  have sum1 := sum.upper
  have both0 := both.lower
  have both1 := both.upper
  have level := between_sub sum.isReal both.isReal (abs_le.2 ⟨by linarith, by linarith⟩)
  have complement : 0 ≤ (1 - value l) * (1 - value s) := mul_nonneg (by linarith) (by linarith)
  have rest : value s * (1 - value l) ≤ 1 - value l := mul_le_of_le_one_left (by linarith) s1
  apply nearUnit_lower (u := value l + value s - value l * value s) hl _
    ⟨by linarith, by linarith⟩ ⟨by linarith, by linarith⟩
  exact ⟨level.isReal, by linarith [level.lower], by linarith [level.upper]⟩

/-- A number between two numbers that are nearly in the unit interval is nearly in it. -/
theorem mix_range {p q t d : ℚ} (hp : -d ≤ p ∧ p ≤ 1 + d) (hq : -d ≤ q ∧ q ≤ 1 + d)
    (ht : 0 ≤ t ∧ t ≤ 1) : -d ≤ p + (q - p) * t ∧ p + (q - p) * t ≤ 1 + d := by
  constructor <;> nlinarith

theorem isShare_add {p q z : Float} (hp : NearUnit p) (hq : NearUnit q) (hz : IsReal z) {t : ℚ}
    (ht : 0 ≤ t ∧ t ≤ 1) (close : |value z - (value q - value p) * t| ≤ 1 / 2 ^ 24) :
    IsShare (p + z) := by
  obtain ⟨lower, upper⟩ := mix_range ⟨hp.lower, hp.upper⟩ ⟨hq.lower, hq.upper⟩ ht
  obtain ⟨below, above⟩ := abs_le.1 close
  have small : step = 1 / 2 ^ 40 := rfl
  have sum := between_add hp.isReal hz (abs_le.2 ⟨by linarith, by linarith⟩)
  exact ⟨sum.isReal, by linarith [sum.lower], by linarith [sum.upper]⟩

theorem abs_mul_le {a b c d : ℚ} (ha : |a| ≤ c) (hb : |b| ≤ d) : |a * b| ≤ c * d := by
  rw [abs_mul]
  exact mul_le_mul ha hb (abs_nonneg b) ((abs_nonneg a).trans ha)

/-- A product of three factors, the first of which is near to `a`. -/
theorem close_mul {u x y : Float} {a : ℚ} (hu : Between (a - step) (a + step) u) (ha : |a| ≤ 2)
    (hx : Between (-8) 8 x) (hy : Between (-8) 8 y) :
    IsReal (u * x * y) ∧ |value (u * x * y) - a * (value x * value y)| ≤ 1 / 2 ^ 24 := by
  have small : step = 1 / 2 ^ 40 := rfl
  have u0 := hu.lower
  have u1 := hu.upper
  have x8 : |value x| ≤ 8 := abs_le.2 ⟨hx.lower, hx.upper⟩
  have y8 : |value y| ≤ 8 := abs_le.2 ⟨hy.lower, hy.upper⟩
  have drift : |value u - a| ≤ step := abs_le.2 ⟨by linarith, by linarith⟩
  have u3 : |value u| ≤ 3 := by
    rw [abs_le] at ha ⊢
    constructor <;> linarith
  have first := between_mul hu.isReal hx.isReal ((abs_mul_le u3 x8).trans (by norm_num))
  have lost : |value (u * x) - value u * value x| ≤ step :=
    abs_le.2 ⟨by linarith [first.lower], by linarith [first.upper]⟩
  have ux25 : |value (u * x)| ≤ 25 := by
    have size := abs_le.1 (abs_mul_le u3 x8)
    exact abs_le.2 ⟨by linarith [first.lower], by linarith [first.upper]⟩
  have second := between_mul first.isReal hy.isReal ((abs_mul_le ux25 y8).trans (by norm_num))
  have carried := abs_le.1 (abs_mul_le lost y8)
  have scaled := abs_le.1 (abs_mul_le (abs_mul_le drift x8) y8)
  exact ⟨second.isReal, abs_le.2 ⟨by linarith [second.lower], by linarith [second.upper]⟩⟩

section Channel

variable {p q : Float} (hp : NearUnit p) (hq : NearUnit q)
include hp hq

theorem abs_difference_le : |value q - value p| ≤ 2 :=
  abs_le.2 ⟨by linarith [hp.upper, hq.lower], by linarith [hp.lower, hq.upper]⟩

theorem isShare_rise {x : Float} (hx : Between 0 (1 / 6) x) :
    IsShare (p + (q - p) * 6.0 * x) := by
  have x0 := hx.lower
  have x1 := hx.upper
  have difference := abs_difference_le hp hq
  obtain ⟨real, six⟩ := hasValue_six
  obtain ⟨product, close⟩ := close_mul (between_sub hq.isReal hp.isReal (by linarith)) difference
    ⟨real, by linarith, by linarith⟩ ⟨hx.isReal, by linarith, by linarith⟩
  rw [six] at close
  exact isShare_add hp hq product ⟨by linarith, by linarith⟩ close

theorem isShare_fall {x : Float} (hx : IsReal x) (lower : 1 / 2 ≤ value x)
    (upper : value x ≤ 6004799503160661 / 2 ^ 53) :
    IsShare (p + (q - p) * (2.0 / 3.0 - x) * 6.0) := by
  have difference := abs_difference_le hp hq
  obtain ⟨realThirds, thirds⟩ := hasValue_thirds
  have sixth : OnGrid (1501199875790165 / 2 ^ 53) :=
    ⟨1501199875790165, -53, by norm_num, by omega, by norm_num⟩
  have exact := approximates_sub realThirds hx
    (by rw [thirds]; exact abs_le.2 ⟨by linarith, by linarith⟩)
  rw [thirds] at exact
  have rest := exact.between onGrid_zero sixth (by linarith) (by linarith)
  have rest0 := rest.lower
  have rest1 := rest.upper
  obtain ⟨real, six⟩ := hasValue_six
  obtain ⟨product, close⟩ := close_mul (between_sub hq.isReal hp.isReal (by linarith)) difference
    ⟨rest.isReal, by linarith, by linarith⟩ ⟨real, by linarith, by linarith⟩
  rw [six] at close
  exact isShare_add hp hq product ⟨by linarith, by linarith⟩ close

/-- At every position of the circle a channel lies between its levels, also where the position is no
number. -/
theorem isShare_channelAt (t : Float) : IsShare (channelAt p q t) := by
  have position := between_modulo t (k := 1) (by omega) (by omega)
  unfold channelAt
  dsimp only
  generalize modulo t 1 = x at position
  rcases position with unit | nan
  · have real := unit.isReal
    split_ifs with first second third
    · rw [lt_iff real hasValue_sixth.isReal, hasValue_sixth.value_eq] at first
      exact isShare_rise hp hq ⟨real, unit.lower, by linarith⟩
    · exact hq.isShare
    · rw [lt_iff real hasValue_middle.isReal, hasValue_middle.value_eq, not_lt] at second
      rw [lt_iff real hasValue_thirds.isReal, hasValue_thirds.value_eq] at third
      exact isShare_fall hp hq real second third.le
    · exact hp.isShare
  · rw [if_neg (not_lt_of_notANumber nan), if_neg (not_lt_of_notANumber nan),
      if_neg (not_lt_of_notANumber nan)]
    exact hp.isShare

end Channel

/-- A share of the highest level is a real number next to a level. -/
theorem between_scaled {x : Float} (h : IsShare x) :
    Between (-(1 / 4)) (255 + 1 / 4) (x * 255.0) := by
  have small : step = 1 / 2 ^ 40 := rfl
  have lower := h.lower
  have upper := h.upper
  obtain ⟨real, top⟩ := hasValue_top
  have product := between_mul h.isReal real
    (by rw [top]; exact abs_le.2 ⟨by linarith, by linarith⟩)
  rw [top] at product
  exact ⟨product.isReal, by linarith [product.lower], by linarith [product.upper]⟩

theorem nearUnit_levels {l s : Float} (hl : Between 0 1 l) (hs : Between 0 1 s) :
    NearUnit (if l < 0.5 then l * (1.0 + s) else l + s - l * s) ∧
      NearUnit (2.0 * l - if l < 0.5 then l * (1.0 + s) else l + s - l * s) := by
  obtain ⟨real, half⟩ := hasValue_half
  have dark := lt_iff hl.isReal real
  rw [half] at dark
  split_ifs with h
  · exact nearUnit_levels_dark hl hs (dark.1 h)
  · exact nearUnit_levels_light hl hs (not_lt.1 fun less => h (dark.2 less))

/-- Every number that is rounded is real, and what it is rounded to is a level. -/
theorem inRange_toRgba (c : Hsl) : (toRgba c).InRange := by
  have levels := nearUnit_levels (between_unitClamp c.lightness) (between_unitClamp c.saturation)
  have channel {x : Float} (h : IsShare x) :=
    between_level (nearest_of_between (between_scaled h))
  unfold toRgba
  dsimp only
  by_cases gray : clamp c.saturation 0.0 1.0 == 0.0
  · have unit := between_unitClamp c.lightness
    have level := channel ⟨unit.isReal, by linarith [unit.lower], by linarith [unit.upper]⟩
    rw [if_pos gray]
    exact ⟨level, level, level⟩
  · have level (t : Float) := channel (isShare_channelAt levels.2 levels.1 t)
    rw [if_neg gray]
    exact ⟨level _, level _, level _⟩

end Hsl

theorem Rgba.exists_dark {c : Rgba} (h : c.InRange) (algorithm : DarkMethod) :
    ∃ d, c.dark algorithm = .ok d := by
  obtain ⟨hsl, hh⟩ := Hsl.exists_ofRgba h
  cases algorithm with
  | flip => exact ⟨_, bind_eq_ok hh rfl⟩
  | invert => exact ⟨_, rfl⟩
  | tone => exact ⟨_, bind_eq_ok hh rfl⟩

end DesignTokens
