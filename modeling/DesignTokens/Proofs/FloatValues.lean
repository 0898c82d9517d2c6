import DesignTokens.Number.Binary64
import Mathlib

/-!
The rational value of a binary64 number. A number that is read from its bits is canonical: its
mantissa has at most 53 bits, and all of them unless the exponent is the least one. So the order of
exponents and mantissas is the order of values, and a canonical number that is written to bits is
read from them again.
-/
namespace DesignTokens.Number

open Float.Model (UnpackedFloat Format)
open Float.Model.UnpackedFloat (Sign unpackMantissa unpackExponent unpackSign packComponents)

/-- A mantissa and an exponent as a number of 64 bits has them. -/
structure Canonical (m : Nat) (e : Int) : Prop where
  small : m < 2 ^ 53
  least : -1074 ≤ e
  full : 2 ^ 52 ≤ m ∨ e = -1074

def IsCanonical : UnpackedFloat → Prop
  | .finite _ m e _ => Canonical m e
  | _ => True

/-- Neither an infinity nor the value that is not a number. -/
def IsRational : UnpackedFloat → Prop
  | .finite .. => True
  | .zero _ => True
  | _ => False

def rational : UnpackedFloat → ℚ
  | .finite s m e _ => s.apply m * 2 ^ e
  | _ => 0

def IsReal (x : Float) : Prop := IsRational x.toModel.unpack

def value (x : Float) : ℚ := rational x.toModel.unpack

theorem wholeFault?_eq_none_iff {x : Float} : wholeFault? x = none ↔ IsReal x := by
  unfold wholeFault? IsReal
  cases x.toModel.unpack <;> simp [IsRational]

theorem eq_zero_or_finite {u : UnpackedFloat} (h : IsRational u) :
    (∃ s, u = .zero s) ∨ ∃ s m e hm, u = .finite s m e hm := by
  cases u with
  | infinity => exact h.elim
  | notANumber => exact h.elim
  | zero s => exact .inl ⟨s, rfl⟩
  | finite s m e hm => exact .inr ⟨s, m, e, hm, rfl⟩

@[simp]
theorem rational_zero (s : Sign) : rational (.zero s) = 0 := rfl

/-- A real number of a given value. -/
structure HasValue (x : Float) (v : ℚ) : Prop where
  isReal : IsReal x
  value_eq : value x = v

theorem HasValue.of_unpack {x : Float} {s : Sign} {m : Nat} {e : Int} {hm : 0 < m} {v : ℚ}
    (h : x.toModel.unpack = .finite s m e hm) (hv : s.apply m * 2 ^ e = v) : HasValue x v := by
  refine ⟨?_, ?_⟩
  · rw [IsReal, h]
    trivial
  · rw [value, h]
    exact hv

/-! ### Signs -/

theorem cast_apply (s : Sign) (n : Nat) : ((s.apply n : Int) : ℚ) = s.apply 1 * n := by
  cases s <;> simp [Sign.apply]

theorem apply_neg (s : Sign) (n : Int) : (-s).apply n = -s.apply n := by
  cases s
  · exact (neg_neg n).symm
  · rfl

theorem apply_mul (s t : Sign) : (s * t).apply 1 = s.apply 1 * t.apply 1 := by
  cases s <;> cases t <;> rfl

theorem apply_div (s t : Sign) : (((s / t).apply 1 : Int) : ℚ) = s.apply 1 / t.apply 1 := by
  have product : (s / t).apply 1 = s.apply 1 * t.apply 1 := by cases s <;> cases t <;> rfl
  rw [product, Int.cast_mul]
  cases t <;> simp [Sign.apply, div_neg]

theorem rational_finite {s : Sign} {m : Nat} {e : Int} {hm : 0 < m} :
    rational (.finite s m e hm) = s.apply 1 * (m * 2 ^ e) := by
  rw [rational, cast_apply, mul_assoc]

theorem rational_neg (u : UnpackedFloat) : rational u.neg = -rational u := by
  cases u with
  | finite s m e hm => rw [UnpackedFloat.neg, rational, rational, apply_neg, Int.cast_neg, neg_mul]
  | infinity | notANumber | zero => exact neg_zero.symm

/-! ### Reading and writing bits -/

theorem toNat_implicit (m : BitVec 52) : (1#1 ++ m).toNat = 2 ^ 52 + m.toNat := by
  rw [BitVec.toNat_append, ← Nat.shiftLeft_add_eq_or_of_lt m.isLt]
  simp [Nat.shiftLeft_eq]

theorem isCanonical_unpack (b : BitVec 64) : IsCanonical (UnpackedFloat.unpack .binary64 b) := by
  have mantissa := (@unpackMantissa .binary64 b).isLt
  have implicit := toNat_implicit (@unpackMantissa .binary64 b)
  unfold UnpackedFloat.unpack
  simp only
  split_ifs with infinite nan subnormal zero
  · trivial
  · trivial
  · trivial
  · rw [subnormal]
    exact ⟨mantissa.trans (by decide), by decide, .inr (by decide)⟩
  · have positive : 0 < (@unpackExponent .binary64 b).toNat := by
      rw [Nat.pos_iff_ne_zero]
      exact fun h => subnormal (BitVec.eq_of_toNat_eq (by simpa using h))
    refine ⟨?_, ?_, .inl ?_⟩
    · omega
    · simp only [Format.exponentBias]
      omega
    · omega

theorem unpackSign_packComponents (s : Sign) (e : BitVec 11) (m : BitVec 52) :
    unpackSign (packComponents .binary64 s e m) = s.toBitVec := by
  simp only [unpackSign, packComponents, BitVec.extractLsb]
  rw [BitVec.extractLsb'_append_eq_of_le (by omega), BitVec.extractLsb'_append_eq_of_le (by omega)]
  cases s <;> rfl

theorem ofBitVec_toBitVec (s : Sign) : Sign.ofBitVec s.toBitVec = s := by cases s <;> rfl

theorem unpack_packComponents (s : Sign) {e : BitVec 11} (m : BitVec 52) (h : 0 < e.toNat)
    (h' : e.toNat < 2047) : UnpackedFloat.unpack .binary64 (packComponents .binary64 s e m) =
      .finite s (2 ^ 52 + m.toNat) (e.toNat - 1075) (by omega) := by
  have sign := unpackSign_packComponents s e m
  have normal : e ≠ 0#11 := by
    rintro rfl
    exact absurd h (by decide)
  have ordinary : e ≠ -1#11 := by
    rintro rfl
    exact absurd h' (by decide)
  rw [UnpackedFloat.unpack]
  simp only [UnpackedFloat.unpackExponent_packComponents,
    UnpackedFloat.unpackMantissa_packComponents, if_neg normal, if_neg ordinary, sign,
    ofBitVec_toBitVec, toNat_implicit]
  rfl

theorem unpack_packComponents_subnormal (s : Sign) {m : BitVec 52} (h : 0 < m.toNat) :
    UnpackedFloat.unpack .binary64 (packComponents .binary64 s 0#11 m) =
      .finite s m.toNat (-1074) h := by
  have sign := unpackSign_packComponents s 0#11 m
  have nonzero : m ≠ 0#52 := by
    rintro rfl
    exact absurd h (by decide)
  rw [UnpackedFloat.unpack]
  simp only [UnpackedFloat.unpackExponent_packComponents,
    UnpackedFloat.unpackMantissa_packComponents, sign, ofBitVec_toBitVec, dif_neg nonzero]
  rfl

theorem unpack_pack_zero (s : Sign) :
    UnpackedFloat.unpack .binary64 (UnpackedFloat.pack .binary64 (.zero s)) = .zero s := by
  cases s <;> rfl

theorem unpack_pack_finite {s : Sign} {m : Nat} {e : Int} {hm : 0 < m} (h : Canonical m e)
    (he : e ≤ 971) :
    UnpackedFloat.unpack .binary64 (UnpackedFloat.pack .binary64 (.finite s m e hm)) =
      .finite s m e hm := by
  obtain ⟨small, least, full⟩ := h
  have biased : (e + ((2 ^ (11 - 1) - 1 : Nat) : Int) + ((52 : Nat) : Int)).toNat =
      (e + 1075).toNat := by omega
  have fits : ¬ 2 ^ 11 ≤ (e + 1075).toNat + 1 := by omega
  have upper := (Nat.log2_lt hm.ne').2 small
  rw [UnpackedFloat.pack]
  simp only [Format.exponentBias, Format.mantissaBits, biased, if_neg fits]
  by_cases normal : 2 ^ 52 ≤ m
  · have lower := (Nat.le_log2 hm.ne').2 normal
    have exponent : (BitVec.ofNat 11 (e + 1075).toNat).toNat = (e + 1075).toNat := by
      rw [BitVec.toNat_ofNat, Nat.mod_eq_of_lt (by omega)]
    have mantissa : 2 ^ 52 + (BitVec.ofNat 52 m).toNat = m := by
      rw [BitVec.toNat_ofNat]
      omega
    rw [if_pos (by omega), unpack_packComponents s _ (by omega) (by omega)]
    simp only [exponent, mantissa]
    congr 1
    omega
  · have lower := (Nat.log2_lt hm.ne').2 (Nat.lt_of_not_le normal)
    have mantissa : (BitVec.ofNat 52 m).toNat = m := by
      rw [BitVec.toNat_ofNat, Nat.mod_eq_of_lt (by omega)]
    obtain rfl := full.resolve_left normal
    rw [if_neg (by omega), unpack_packComponents_subnormal s (by omega)]
    simp only [mantissa]

/-! ### The order of values -/

/-- A number whose exponent is larger is larger. -/
theorem Canonical.lt_of_exponent_lt {m n : Nat} {d e : Int} (hm : Canonical m d)
    (hn : Canonical n e) (h : d < e) : (m : ℚ) * 2 ^ d < n * 2 ^ e := by
  have full : 2 ^ 52 ≤ n := by
    have := hm.least
    have := hn.full
    omega
  have gap : (2 : ℚ) ^ d * 2 ≤ 2 ^ e := by
    rw [← zpow_add_one₀ two_ne_zero]
    exact zpow_le_zpow_right₀ one_le_two (by omega)
  calc (m : ℚ) * 2 ^ d < 2 ^ 53 * 2 ^ d := by
        have := hm.small
        gcongr
        exact_mod_cast this
    _ = 2 ^ 52 * (2 ^ d * 2) := by ring
    _ ≤ n * 2 ^ e := by
        gcongr
        exact_mod_cast full

theorem compare_neg_neg (a b : ℚ) : compare (-a) (-b) = (compare a b).swap := by
  rcases lt_trichotomy a b with h | rfl | h
  · rw [compare_lt_iff_lt.2 h, compare_gt_iff_gt.2 (neg_lt_neg h), Ordering.swap_lt]
  · rw [compare_eq_iff_eq.2 rfl, compare_eq_iff_eq.2 rfl, Ordering.swap_eq]
  · rw [compare_gt_iff_gt.2 h, compare_lt_iff_lt.2 (neg_lt_neg h), Ordering.swap_gt]

theorem compare_magnitudes {m n : Nat} {d e : Int} (hm : Canonical m d) (hn : Canonical n e) :
    (compare d e).then (compare m n) = compare ((m : ℚ) * 2 ^ d) (n * 2 ^ e) := by
  rcases lt_trichotomy d e with h | rfl | h
  · rw [compare_lt_iff_lt.2 h, compare_lt_iff_lt.2 (hm.lt_of_exponent_lt hn h)]
    rfl
  · have scale : (0 : ℚ) < 2 ^ d := by positivity
    rw [compare_eq_iff_eq.2 rfl, Ordering.then]
    rcases lt_trichotomy m n with h | rfl | h
    · rw [compare_lt_iff_lt.2 h, compare_lt_iff_lt.2]
      gcongr
    · rw [compare_eq_iff_eq.2 rfl, compare_eq_iff_eq.2 rfl]
    · rw [compare_gt_iff_gt.2 h, compare_gt_iff_gt.2]
      gcongr
  · rw [compare_gt_iff_gt.2 h, compare_gt_iff_gt.2 (hn.lt_of_exponent_lt hm h)]
    rfl

theorem magnitude_pos {m : Nat} (hm : 0 < m) (e : Int) : (0 : ℚ) < m * 2 ^ e := by positivity

theorem compare_of_isRational {u v : UnpackedFloat} (hu : IsCanonical u) (hv : IsCanonical v)
    (ru : IsRational u) (rv : IsRational v) :
    u.compare v = some (compare (rational u) (rational v)) := by
  obtain ⟨s, rfl⟩ | ⟨s, m, e, hm, rfl⟩ := eq_zero_or_finite ru
  · obtain ⟨t, rfl⟩ | ⟨t, n, d, hn, rfl⟩ := eq_zero_or_finite rv
    · rfl
    · have positive := magnitude_pos hn d
      cases t
      · rw [compare_gt_iff_gt.2 (by simpa [rational, Sign.apply] using positive)]
        rfl
      · rw [compare_lt_iff_lt.2 (by simpa [rational, Sign.apply] using positive)]
        rfl
  · obtain ⟨t, rfl⟩ | ⟨t, n, d, hn, rfl⟩ := eq_zero_or_finite rv
    · have positive := magnitude_pos hm e
      cases s
      · rw [compare_lt_iff_lt.2 (by simpa [rational, Sign.apply] using positive)]
        rfl
      · rw [compare_gt_iff_gt.2 (by simpa [rational, Sign.apply] using positive)]
        rfl
    · have first := magnitude_pos hm e
      have second := magnitude_pos hn d
      cases s <;> cases t
      · simp only [UnpackedFloat.compare, compare_magnitudes hu hv, rational, Sign.apply,
          Int.cast_neg, Int.cast_natCast, neg_mul]
        rw [compare_neg_neg]
      · rw [compare_lt_iff_lt.2 (by simp only [rational, Sign.apply]; push_cast; linarith)]
        rfl
      · rw [compare_gt_iff_gt.2 (by simp only [rational, Sign.apply]; push_cast; linarith)]
        rfl
      · simp only [UnpackedFloat.compare, compare_magnitudes hu hv, rational, Sign.apply,
          Int.cast_natCast]

theorem lt_iff_compare {x y : Float} :
    x < y ↔ x.toModel.unpack.compare y.toModel.unpack = some .lt := by
  change decide (x.toModel < y.toModel) = true ↔ _
  rw [decide_eq_true_iff]
  change (UnpackedFloat.compare _ _ == some Ordering.lt) = true ↔ _
  rw [beq_iff_eq]

theorem beq_iff_compare {x y : Float} :
    (x == y) = true ↔ x.toModel.unpack.compare y.toModel.unpack = some .eq := by
  change (UnpackedFloat.compare _ _ == some Ordering.eq) = true ↔ _
  rw [beq_iff_eq]

theorem compare_of_isReal {x y : Float} (hx : IsReal x) (hy : IsReal y) :
    x.toModel.unpack.compare y.toModel.unpack = some (compare (value x) (value y)) :=
  compare_of_isRational (isCanonical_unpack _) (isCanonical_unpack _) hx hy

theorem lt_iff {x y : Float} (hx : IsReal x) (hy : IsReal y) : x < y ↔ value x < value y := by
  rw [lt_iff_compare, compare_of_isReal hx hy, Option.some.injEq, compare_lt_iff_lt]

theorem beq_iff {x y : Float} (hx : IsReal x) (hy : IsReal y) :
    (x == y) = true ↔ value x = value y := by
  rw [beq_iff_compare, compare_of_isReal hx hy, Option.some.injEq, compare_eq_iff_eq]

theorem not_lt_of_notANumber {x y : Float} (h : x.toModel.unpack = .notANumber) : ¬ x < y := by
  rw [lt_iff_compare, h]
  exact nofun

/-- What is larger than a real number, but not real, is larger than every real number. -/
theorem not_lt_of_not_isReal {x low high : Float} (hx : ¬ IsReal x) (hl : IsReal low)
    (hh : IsReal high) (h : low < x) : ¬ x < high := by
  rw [lt_iff_compare] at h ⊢
  unfold IsReal at hx hl hh
  revert hx hl hh h
  cases x.toModel.unpack with
  | finite => exact fun hx => absurd trivial hx
  | zero => exact fun hx => absurd trivial hx
  | notANumber => cases low.toModel.unpack <;> simp [UnpackedFloat.compare]
  | infinity s =>
      cases s <;> cases low.toModel.unpack <;> cases high.toModel.unpack <;>
        simp [UnpackedFloat.compare, IsRational]

end DesignTokens.Number
