import DesignTokens.Proofs.FloatValues

/-!
Rounding to the nearest binary64 number keeps the order against every number of at most 53 bits: a
result lies on the same side of it as the exact number that is rounded. This is all that is said of
sums, differences, products and quotients; that they err by little follows from it.
-/
namespace DesignTokens.Number

open Float.Model (UnpackedFloat Format totalExponent)
open Float.Model.UnpackedFloat (Sign Accuracy ExtendedMantissa)

/-! ### Mantissas and what is cut off from them -/

/-- A mantissa whose residual bits are set if anything was cut off from `z`. -/
structure Truncates (em : ExtendedMantissa) (z : ℚ) : Prop where
  lower : em.mantissa ≤ z
  upper : z < em.mantissa + 1
  exact : z = em.mantissa → em.roundBit = false ∧ em.stickyBit = false

theorem Truncates.shiftRightOne {em : ExtendedMantissa} {z : ℚ} (h : Truncates em z) :
    Truncates em.shiftRightOne (z / 2) := by
  have lower := h.lower
  have upper := h.upper
  have split : (em.mantissa : ℚ) = 2 * (em.mantissa / 2 : Nat) + (em.mantissa % 2 : Nat) := by
    exact_mod_cast (Nat.div_add_mod em.mantissa 2).symm
  have rest : ((em.mantissa % 2 : Nat) : ℚ) ≤ 1 := by
    exact_mod_cast Nat.lt_succ_iff.1 (Nat.mod_lt _ two_pos)
  refine ⟨?_, ?_, fun same => ?_⟩
  · simp only [ExtendedMantissa.shiftRightOne]
    linarith
  · simp only [ExtendedMantissa.shiftRightOne]
    linarith
  · simp only [ExtendedMantissa.shiftRightOne] at same ⊢
    have even : ((em.mantissa % 2 : Nat) : ℚ) = 0 := by
      have : (0 : ℚ) ≤ (em.mantissa % 2 : Nat) := Nat.cast_nonneg _
      linarith
    have bits := h.exact (by linarith)
    simp [Nat.cast_eq_zero.1 even, bits.1, bits.2]

theorem Truncates.shiftRight {em : ExtendedMantissa} {z : ℚ} (h : Truncates em z) (n : Nat) :
    Truncates (em >>> n) (z / 2 ^ n) := by
  induction n with
  | zero =>
      rw [pow_zero, div_one]
      exact h
  | succ n ih =>
      rw [pow_succ, ← div_div]
      exact ih.shiftRightOne

theorem mantissa_shiftRight (em : ExtendedMantissa) (n : Nat) :
    (em >>> n).mantissa = em.mantissa / 2 ^ n := by
  induction n with
  | zero => exact (Nat.div_one _).symm
  | succ n ih =>
      rw [pow_succ, ← Nat.div_div_eq_div_mul, ← ih]
      rfl

theorem mantissa_ofMantissaAndAccuracy (m : Nat) (a : Accuracy) :
    (ExtendedMantissa.ofMantissaAndAccuracy m a).mantissa = m := by
  rcases a with _ | (_ | _ | _) <;> rfl

theorem truncates_exact (m : Nat) : Truncates (.ofMantissaAndAccuracy m .exact) m :=
  ⟨le_rfl, lt_add_one _, fun _ => ⟨rfl, rfl⟩⟩

theorem truncates_quotient (a : Nat) {b : Nat} (hb : 0 < b) :
    Truncates (.ofMantissaAndAccuracy (a / b) (UnpackedFloat.accuracyOfFraction (a % b) b))
      (a / b : ℚ) := by
  have positive : (0 : ℚ) < b := by exact_mod_cast hb
  have split : (a : ℚ) = b * (a / b : Nat) + (a % b : Nat) := by
    exact_mod_cast (Nat.div_add_mod a b).symm
  have rest : ((a % b : Nat) : ℚ) < b := by exact_mod_cast Nat.mod_lt a hb
  refine ⟨?_, ?_, fun same => ?_⟩
  · rw [mantissa_ofMantissaAndAccuracy, le_div_iff₀ positive]
    have : (0 : ℚ) ≤ (a % b : Nat) := Nat.cast_nonneg _
    linarith
  · rw [mantissa_ofMantissaAndAccuracy, div_lt_iff₀ positive]
    linarith
  · rw [mantissa_ofMantissaAndAccuracy, div_eq_iff positive.ne'] at same
    have zero : ((a % b : Nat) : ℚ) = 0 := by linarith
    rw [Nat.cast_eq_zero.1 zero]
    exact ⟨rfl, rfl⟩

theorem le_roundedMantissa (em : ExtendedMantissa) : em.mantissa ≤ em.roundedMantissa := by
  obtain ⟨m, r, s⟩ := em
  cases r <;> cases s <;>
    simp [ExtendedMantissa.roundedMantissa, ExtendedMantissa.accuracy, Accuracy.roundToNearestEven]

theorem roundedMantissa_le (em : ExtendedMantissa) : em.roundedMantissa ≤ em.mantissa + 1 := by
  obtain ⟨m, r, s⟩ := em
  cases r <;> cases s <;>
    simp [ExtendedMantissa.roundedMantissa, ExtendedMantissa.accuracy, Accuracy.roundToNearestEven]
  omega

theorem roundedMantissa_exact {em : ExtendedMantissa} {z : ℚ} (h : Truncates em z)
    (hz : z = em.mantissa) : em.roundedMantissa = em.mantissa := by
  obtain ⟨m, r, s⟩ := em
  obtain ⟨hr, hs⟩ := h.exact hz
  cases hr
  cases hs
  rfl

/-- The exponent that a number is rounded to. -/
def target (m : Nat) (e : Int) : Int := max (m.log2 + 1 + e - 53) (-1074)

theorem targetExponent_eq (m : Nat) (e : Int) :
    Format.targetExponent .binary64 (totalExponent m e) = target m e := rfl

theorem le_target {m : Nat} {e : Int} (h : 2 ^ 52 ≤ m ∨ e ≤ -1074) : e ≤ target m e := by
  simp only [target]
  rcases h with full | least
  · have := (Nat.le_log2 (by omega)).2 full
    omega
  · omega

theorem shiftToTargetExponent_eq {m : Nat} {e : Int} (a : Accuracy) (he : e ≤ target m e) :
    UnpackedFloat.shiftToTargetExponent .binary64 m e a =
      (ExtendedMantissa.ofMantissaAndAccuracy m a >>> (target m e - e).toNat, target m e) := by
  simp only [UnpackedFloat.shiftToTargetExponent, targetExponent_eq, UnpackedFloat.shiftToExponent,
    Prod.mk.injEq, true_and]
  omega

theorem canonical_shifted {m : Nat} {e : Int} (he : e ≤ target m e) :
    Canonical (m / 2 ^ (target m e - e).toNat) (target m e) := by
  have least : m.log2 + 1 - 53 ≤ (target m e - e).toNat := by
    simp only [target] at *
    omega
  refine ⟨?_, le_max_right _ _, ?_⟩
  · rw [Nat.div_lt_iff_lt_mul (by positivity), ← pow_add]
    calc m < 2 ^ (m.log2 + 1) := Nat.lt_log2_self
      _ ≤ 2 ^ (53 + (target m e - e).toNat) := Nat.pow_le_pow_right two_pos (by omega)
  · rcases eq_or_ne (target m e) (-1074) with h | h
    · exact .inr h
    · left
      have amount : 52 + (target m e - e).toNat = m.log2 := by
        simp only [target] at *
        omega
      have positive : m ≠ 0 := by
        rintro rfl
        simp at amount
      rw [Nat.le_div_iff_mul_le (by positivity), ← pow_add, amount]
      exact Nat.log2_self_le positive

/-- A rounded mantissa takes at most one shift more, which drops nothing. -/
theorem exists_canonical {m r : Nat} {t : Int} (h : Canonical m t) (lower : m ≤ r)
    (upper : r ≤ m + 1) :
    ∃ em t', UnpackedFloat.shiftToTargetExponent .binary64 r t .exact = (em, t') ∧
      Canonical em.mantissa t' ∧ (em.mantissa : ℚ) * 2 ^ t' = r * 2 ^ t := by
  have least := h.least
  have small := h.small
  have full := h.full
  have le : t ≤ target r t := by
    simp only [target]
    rcases full with full | full
    · have := (Nat.le_log2 (by omega)).2 (full.trans lower)
      omega
    · omega
  refine ⟨_, _, shiftToTargetExponent_eq .exact le, ?_, ?_⟩
  · rw [mantissa_shiftRight, mantissa_ofMantissaAndAccuracy]
    exact canonical_shifted le
  · rw [mantissa_shiftRight, mantissa_ofMantissaAndAccuracy]
    rcases Nat.lt_or_ge r (2 ^ 53) with fits | fits
    · have same : target r t = t := by
        have : r.log2 < 53 := by
          rcases Nat.eq_zero_or_pos r with rfl | positive
          · simp
          · exact (Nat.log2_lt positive.ne').2 fits
        simp only [target] at *
        omega
      rw [same, sub_self, Int.toNat_zero, pow_zero, Nat.div_one]
    · obtain rfl : r = 2 ^ 53 := by omega
      have next : target (2 ^ 53) t = t + 1 := by
        rw [target, Nat.log2_two_pow]
        omega
      rw [next, add_sub_cancel_left, zpow_add_one₀ two_ne_zero]
      norm_num
      ring

/-! ### Rounding -/

/-- A whole number of at most 53 bits times a power of two that is not below the least one. -/
def OnGrid (b : ℚ) : Prop := ∃ k j : Int, |k| < 2 ^ 53 ∧ -1074 ≤ j ∧ b = k * 2 ^ j

/-- The order against every number of the grid is kept. -/
def Rounds (w x : ℚ) : Prop := ∀ b, OnGrid b → (w ≤ b → x ≤ b) ∧ (b ≤ w → b ≤ x)

theorem OnGrid.neg {b : ℚ} (h : OnGrid b) : OnGrid (-b) := by
  obtain ⟨k, j, small, least, rfl⟩ := h
  exact ⟨-k, j, by rwa [abs_neg], least, by push_cast; ring⟩

theorem onGrid_int {n : Int} (h : |n| < 2 ^ 53) : OnGrid n := ⟨n, 0, h, by omega, by simp⟩

theorem onGrid_natCast {n : Nat} (h : n < 2 ^ 53) : OnGrid n := by
  have whole := onGrid_int (n := n) (by rw [Nat.abs_cast]; exact_mod_cast h)
  exact_mod_cast whole

theorem onGrid_zero : OnGrid 0 := by simpa using onGrid_natCast (n := 0) (by omega)

theorem onGrid_one : OnGrid 1 := by simpa using onGrid_natCast (n := 1) (by omega)

theorem onGrid_zpow {j : Int} (h : -1074 ≤ j) : OnGrid (2 ^ j) :=
  ⟨1, j, by norm_num, h, by simp⟩

theorem Rounds.refl (w : ℚ) : Rounds w w := fun _ _ => ⟨id, id⟩

theorem Rounds.neg {w x : ℚ} (h : Rounds w x) : Rounds (-w) (-x) := by
  intro b hb
  have := h (-b) hb.neg
  exact ⟨fun hw => neg_le.1 (this.2 (neg_le.1 hw)), fun hw => le_neg.1 (this.1 (le_neg.1 hw))⟩

theorem Rounds.apply {w x : ℚ} (h : Rounds w x) (s : Sign) :
    Rounds (s.apply 1 * w) (s.apply 1 * x) := by
  cases s
  · simpa [Sign.apply] using h.neg
  · simpa [Sign.apply] using h

theorem rounds_roundedMantissa {em : ExtendedMantissa} {z : ℚ} {t : Int} (h : Truncates em z)
    (hc : Canonical em.mantissa t) : Rounds (z * 2 ^ t) (em.roundedMantissa * 2 ^ t) := by
  rintro _ ⟨k, j, small, least, rfl⟩
  have scale : (0 : ℚ) < 2 ^ t := by positivity
  have floor := le_roundedMantissa em
  have ceiling := roundedMantissa_le em
  rcases le_or_gt t j with fine | coarse
  · -- the number is a whole multiple of the last place
    obtain ⟨n, rfl⟩ := Int.le.dest fine
    have whole : (k : ℚ) * 2 ^ (t + n : Int) = ((k * 2 ^ n : Int) : ℚ) * 2 ^ t := by
      rw [zpow_add₀ two_ne_zero, zpow_natCast]
      push_cast
      ring
    simp only [whole, mul_le_mul_iff_left₀ scale]
    generalize k * 2 ^ n = K
    constructor
    · intro below
      rcases eq_or_lt_of_le h.lower with same | more
      · rw [roundedMantissa_exact h same.symm]
        exact h.lower.trans below
      · have : (em.mantissa : ℤ) < K := by exact_mod_cast more.trans_le below
        exact_mod_cast (show (em.roundedMantissa : ℤ) ≤ K by omega)
    · intro above
      have : K < (em.mantissa : ℤ) + 1 := by exact_mod_cast above.trans_lt h.upper
      exact_mod_cast (show K ≤ (em.roundedMantissa : ℤ) by omega)
  · -- the number is smaller than every rounded one
    have full : 2 ^ 52 ≤ em.mantissa := by
      have := hc.full
      omega
    have : (k : ℚ) * 2 ^ j < em.mantissa * 2 ^ t := by
      calc (k : ℚ) * 2 ^ j < 2 ^ 53 * 2 ^ j := by
            have : k < 2 ^ 53 := (abs_lt.1 small).2
            gcongr
            exact_mod_cast this
        _ = 2 ^ 52 * 2 ^ (j + 1) := by
            rw [zpow_add_one₀ two_ne_zero]
            ring
        _ ≤ em.mantissa * 2 ^ t := by
            gcongr
            · exact_mod_cast full
            · norm_num
            · omega
    constructor
    · intro below
      have := mul_le_mul_of_nonneg_right h.lower scale.le
      linarith
    · intro _
      have : (em.mantissa : ℚ) * 2 ^ t ≤ em.roundedMantissa * 2 ^ t := by gcongr
      linarith

/-- A real number as it is stored. -/
structure Stored (u : UnpackedFloat) : Prop where
  canonical : IsCanonical u
  isRational : IsRational u

/-- A stored number in the place of `w`. -/
structure Result (u : UnpackedFloat) (w : ℚ) : Prop extends Stored u where
  rounds : Rounds w (rational u)

theorem Stored.result {u : UnpackedFloat} (h : Stored u) : Result u (rational u) := ⟨h, .refl _⟩

theorem result_zero (s : Sign) : Result (.zero s) 0 := ⟨⟨trivial, trivial⟩, .refl 0⟩

theorem result_roundWithAccuracy {m : Nat} {e : Int} {a : Accuracy} {z : ℚ} (s : Sign)
    (h : Truncates (.ofMantissaAndAccuracy m a) z) (he : e ≤ target m e) :
    Result (.roundWithAccuracy .binary64 s m e a) (s.apply 1 * (z * 2 ^ e)) := by
  have first := shiftToTargetExponent_eq a he
  have canonical := canonical_shifted he
  have truncates := h.shiftRight (target m e - e).toNat
  rw [← mantissa_ofMantissaAndAccuracy m a, ← mantissa_shiftRight,
    mantissa_ofMantissaAndAccuracy] at canonical
  have exact : z / 2 ^ (target m e - e).toNat * 2 ^ target m e = z * 2 ^ e := by
    have : (2 : ℚ) ^ target m e = 2 ^ e * 2 ^ (target m e - e).toNat := by
      rw [← zpow_natCast, ← zpow_add₀ two_ne_zero]
      congr 1
      omega
    rw [this]
    field_simp
  have rounds := rounds_roundedMantissa truncates canonical
  rw [exact] at rounds
  obtain ⟨em, t, second, final, same⟩ :=
    exists_canonical canonical (le_roundedMantissa _) (roundedMantissa_le _)
  rw [← same] at rounds
  simp only [UnpackedFloat.roundWithAccuracy, first, second]
  split_ifs with zero
  · refine ⟨⟨trivial, trivial⟩, ?_⟩
    have := rounds.apply s
    rw [zero] at this
    simpa [rational] using this
  · refine ⟨⟨final, trivial⟩, ?_⟩
    rw [rational_finite]
    exact rounds.apply s

/-! ### Results of operations -/

theorem log2_mul_two_pow {m : Nat} (hm : 0 < m) (k : Nat) :
    (m * 2 ^ k).log2 = m.log2 + k := by
  rw [Nat.log2_eq_iff (by positivity), Nat.add_right_comm, pow_add, pow_add]
  exact ⟨Nat.mul_le_mul_right _ (Nat.log2_self_le hm.ne'),
    Nat.mul_lt_mul_of_pos_right Nat.lt_log2_self (by positivity)⟩

theorem cast_decreased (m : Nat) (e : Int) (k : Nat) :
    ((m * 2 ^ k : Nat) : ℚ) * 2 ^ (e - k) = m * 2 ^ e := by
  rw [zpow_sub₀ two_ne_zero, zpow_natCast]
  push_cast
  field_simp

/-- A mantissa that is carried to a smaller exponent has the same value. -/
theorem aligned (s : Sign) (m : Nat) {t e : Int} (h : t ≤ e) :
    ((s.apply (m * 2 ^ (e - t).toNat : Nat) : Int) : ℚ) * 2 ^ t = (s.apply m : Int) * 2 ^ e := by
  have same := cast_decreased m e (e - t).toNat
  rw [show e - (e - t).toNat = t by omega] at same
  rw [cast_apply, cast_apply, mul_assoc, mul_assoc, same]

theorem result_round {m : Nat} (s : Sign) (hm : 0 < m) (e : Int) :
    Result (.round .binary64 s m e) (s.apply 1 * (m * 2 ^ e)) := by
  have shifted := log2_mul_two_pow hm (e - target m e).toNat
  have le : e - (e - target m e).toNat ≤
      target (m * 2 ^ (e - target m e).toNat) (e - (e - target m e).toNat) := by
    simp only [target] at *
    omega
  have rounded := result_roundWithAccuracy s (truncates_exact _) le
  rw [cast_decreased] at rounded
  simp only [UnpackedFloat.round, targetExponent_eq, UnpackedFloat.decreaseExponent,
    Nat.shiftLeft_eq]
  exact rounded

theorem result_normalize (n : Int) (e : Int) (s : Sign) :
    Result (.normalize .binary64 n e s) (n * 2 ^ e) := by
  rcases lt_trichotomy n 0 with negative | rfl | positive
  · have signed : Sign.apply .negative (-n).toNat = n := by
      simp only [Sign.apply]
      omega
    have rounded := result_round .negative (m := (-n).toNat) (by omega) e
    rw [← mul_assoc, ← cast_apply, signed] at rounded
    simpa only [UnpackedFloat.normalize, compare_lt_iff_lt.2 negative] using rounded
  · have zero : UnpackedFloat.normalize .binary64 0 e s = .zero s := rfl
    rw [zero, Int.cast_zero, zero_mul]
    exact result_zero s
  · have signed : Sign.apply .positive n.toNat = n := by
      simp only [Sign.apply]
      omega
    have rounded := result_round .positive (m := n.toNat) (by omega) e
    rw [← mul_assoc, ← cast_apply, signed] at rounded
    simpa only [UnpackedFloat.normalize, compare_gt_iff_gt.2 positive] using rounded

theorem result_add {u v : UnpackedFloat} (hu : Stored u) (hv : Stored v) :
    Result (.add .binary64 u v) (rational u + rational v) := by
  obtain ⟨s, rfl⟩ | ⟨s, m, e, hm, rfl⟩ := eq_zero_or_finite hu.isRational
  · obtain ⟨t, rfl⟩ | ⟨t, n, d, hn, rfl⟩ := eq_zero_or_finite hv.isRational
    · rw [rational_zero, rational_zero, add_zero]
      cases s <;> cases t <;> exact result_zero _
    · rw [rational_zero, zero_add]
      exact hv.result
  · obtain ⟨t, rfl⟩ | ⟨t, n, d, hn, rfl⟩ := eq_zero_or_finite hv.isRational
    · rw [rational_zero, add_zero]
      exact hu.result
    · have rounded := result_normalize (s.apply (m * 2 ^ (e - min e d).toNat : Nat) +
        t.apply (n * 2 ^ (d - min e d).toNat : Nat)) (min e d) .positive
      rw [Int.cast_add, add_mul, aligned s m (min_le_left e d), aligned t n (min_le_right e d)]
        at rounded
      simp only [UnpackedFloat.add, UnpackedFloat.decreaseExponent, Nat.shiftLeft_eq]
      exact rounded

theorem Stored.neg {u : UnpackedFloat} (h : Stored u) : Stored u.neg := by
  obtain ⟨s, rfl⟩ | ⟨s, m, e, hm, rfl⟩ := eq_zero_or_finite h.isRational
  · exact ⟨trivial, trivial⟩
  · exact ⟨h.canonical, trivial⟩

/-- Subtraction adds what has the other sign. -/
theorem sub_eq_add {u v : UnpackedFloat} (hu : IsRational u) (hv : IsRational v) :
    UnpackedFloat.sub .binary64 u v = .add .binary64 u (.neg v) := by
  obtain ⟨s, rfl⟩ | ⟨s, m, e, hm, rfl⟩ := eq_zero_or_finite hu
  · obtain ⟨t, rfl⟩ | ⟨t, n, d, hn, rfl⟩ := eq_zero_or_finite hv
    · cases s <;> cases t <;> rfl
    · rfl
  · obtain ⟨t, rfl⟩ | ⟨t, n, d, hn, rfl⟩ := eq_zero_or_finite hv
    · rfl
    · simp only [UnpackedFloat.sub, UnpackedFloat.add, UnpackedFloat.neg, apply_neg,
        Int.sub_eq_add_neg]

theorem result_sub {u v : UnpackedFloat} (hu : Stored u) (hv : Stored v) :
    Result (.sub .binary64 u v) (rational u - rational v) := by
  rw [sub_eq_add hu.isRational hv.isRational, sub_eq_add_neg, ← rational_neg]
  exact result_add hu hv.neg

theorem result_mul {u v : UnpackedFloat} (hu : Stored u) (hv : Stored v) :
    Result (.mul .binary64 u v) (rational u * rational v) := by
  obtain ⟨s, rfl⟩ | ⟨s, m, e, hm, rfl⟩ := eq_zero_or_finite hu.isRational
  · obtain ⟨t, rfl⟩ | ⟨t, n, d, hn, rfl⟩ := eq_zero_or_finite hv.isRational <;>
      rw [rational_zero, zero_mul] <;> exact result_zero _
  · obtain ⟨t, rfl⟩ | ⟨t, n, d, hn, rfl⟩ := eq_zero_or_finite hv.isRational
    · rw [rational_zero, mul_zero]
      exact result_zero _
    · have le : e + d ≤ target (m * n) (e + d) := by
        apply le_target
        rcases hu.canonical.full with full | least
        · exact .inl (full.trans (Nat.le_mul_of_pos_right m hn))
        · rcases hv.canonical.full with full | least'
          · exact .inl (full.trans (Nat.le_mul_of_pos_left n hm))
          · omega
      have rounded := result_roundWithAccuracy (s * t) (truncates_exact (m * n)) le
      have same : ((s * t).apply 1 : ℚ) * (((m * n : Nat) : ℚ) * 2 ^ (e + d)) =
          rational (.finite s m e hm) * rational (.finite t n d hn) := by
        rw [rational_finite, rational_finite, apply_mul, zpow_add₀ two_ne_zero]
        push_cast
        ring
      rw [same] at rounded
      exact rounded

/-- The quotient of mantissas has all bits, or its exponent is the least one. -/
theorem le_target_quotient {m n : Nat} (hm : 0 < m) (hn : 0 < n) {d e t : Int}
    (ht : t = min (e - d) (max (m.log2 + 1 + e - (n.log2 + 1 + d) - 53) (-1074))) :
    t ≤ target (m * 2 ^ (e - d - t).toNat / n) t := by
  apply le_target
  rcases le_or_gt t (-1074) with least | large
  · exact .inr least
  · left
    rw [Nat.le_div_iff_mul_le hn]
    calc 2 ^ 52 * n ≤ 2 ^ 52 * 2 ^ (n.log2 + 1) := Nat.mul_le_mul_left _ Nat.lt_log2_self.le
      _ = 2 ^ (n.log2 + 53) := by
          rw [← pow_add]
          congr 1
          omega
      _ ≤ 2 ^ (m.log2 + (e - d - t).toNat) := Nat.pow_le_pow_right two_pos (by omega)
      _ = 2 ^ m.log2 * 2 ^ (e - d - t).toNat := pow_add _ _ _
      _ ≤ m * 2 ^ (e - d - t).toNat := Nat.mul_le_mul_right _ (Nat.log2_self_le hm.ne')

theorem result_div {u v : UnpackedFloat} (hu : Stored u) (hv : Stored v) (h : rational v ≠ 0) :
    Result (.div .binary64 u v) (rational u / rational v) := by
  obtain ⟨t, rfl⟩ | ⟨t, n, d, hn, rfl⟩ := eq_zero_or_finite hv.isRational
  · exact absurd rfl h
  obtain ⟨s, rfl⟩ | ⟨s, m, e, hm, rfl⟩ := eq_zero_or_finite hu.isRational
  · rw [rational_zero, zero_div]
    exact result_zero _
  · obtain ⟨k, hk⟩ :
        ∃ k, k = min (e - d) (max (m.log2 + 1 + e - (n.log2 + 1 + d) - 53) (-1074)) := ⟨_, rfl⟩
    have le := le_target_quotient hm hn hk
    have rounded := result_roundWithAccuracy (s / t)
      (truncates_quotient (m * 2 ^ (e - d - k).toNat) hn) le
    have same : ((s / t).apply 1 : ℚ) * (((m * 2 ^ (e - d - k).toNat : Nat) : ℚ) / n * 2 ^ k) =
        rational (.finite s m e hm) / rational (.finite t n d hn) := by
      have quotient : ((m * 2 ^ (e - d - k).toNat : Nat) : ℚ) / n * 2 ^ k =
          m * 2 ^ e / (n * 2 ^ d) := by
        have power : (2 : ℚ) ^ e = 2 ^ (e - d - k).toNat * 2 ^ k * 2 ^ d := by
          rw [← zpow_natCast, ← zpow_add₀ two_ne_zero, ← zpow_add₀ two_ne_zero]
          congr 1
          omega
        rw [power]
        push_cast
        field_simp
      rw [rational_finite, rational_finite, mul_div_mul_comm, quotient, apply_div]
    rw [same] at rounded
    have core : UnpackedFloat.divCore .binary64 m e n d = (m * 2 ^ (e - d - k).toNat / n, k,
        UnpackedFloat.accuracyOfFraction (m * 2 ^ (e - d - k).toNat % n) n) := by
      rw [hk, ← Nat.shiftLeft_eq]
      rfl
    simpa only [UnpackedFloat.div, core] using rounded

theorem Result.exponent_le {s : Sign} {m : Nat} {e : Int} {hm : 0 < m} {w : ℚ}
    (h : Result (.finite s m e hm) w) (bound : |w| ≤ 2 ^ 100) : e ≤ 100 := by
  have top : OnGrid (2 ^ (100 : Int)) := onGrid_zpow (by omega)
  have above := (h.rounds _ top).1 ((le_abs_self w).trans bound)
  have below := (h.rounds _ top.neg).2 (neg_le.1 ((neg_le_abs w).trans bound))
  have size : (m : ℚ) * 2 ^ e ≤ 2 ^ (100 : Int) := by
    cases s
    · simp only [rational, Sign.apply] at below
      push_cast at below
      linarith
    · exact above
  have one : (1 : ℚ) ≤ m := by exact_mod_cast hm
  have power : (2 : ℚ) ^ e ≤ 2 ^ (100 : Int) :=
    (le_mul_of_one_le_left (by positivity) one).trans size
  exact (zpow_le_zpow_iff_right₀ one_lt_two).1 power

theorem Result.unpack_pack {u : UnpackedFloat} {w : ℚ} (h : Result u w)
    (bound : |w| ≤ 2 ^ 100) : (Float.Model.pack u).unpack = u := by
  cases u with
  | infinity => exact h.isRational.elim
  | notANumber => exact h.isRational.elim
  | zero s => exact unpack_pack_zero s
  | finite s m e hm =>
      exact unpack_pack_finite h.canonical ((h.exponent_le bound).trans (by omega))

/-! ### Numbers that stand for others -/

/-- A real number in the place of `w`. -/
structure Approximates (x : Float) (w : ℚ) : Prop where
  isReal : IsReal x
  rounds : Rounds w (value x)

theorem Result.approximates {u : UnpackedFloat} {w : ℚ} (h : Result u w)
    (bound : |w| ≤ 2 ^ 100) : Approximates ⟨.pack u⟩ w := by
  have same := h.unpack_pack bound
  refine ⟨?_, ?_⟩
  · rw [IsReal, same]
    exact h.isRational
  · rw [value, same]
    exact h.rounds

theorem IsReal.stored {x : Float} (h : IsReal x) : Stored x.toModel.unpack :=
  ⟨isCanonical_unpack _, h⟩

theorem IsReal.onGrid {x : Float} (h : IsReal x) : OnGrid (value x) := by
  obtain ⟨s, same⟩ | ⟨s, m, e, hm, same⟩ := eq_zero_or_finite h
  · rw [value, same]
    exact onGrid_zero
  · have canonical := h.stored.canonical
    rw [same] at canonical
    refine ⟨s.apply m, e, ?_, canonical.least, by rw [value, same, rational]⟩
    have small := canonical.small
    cases s <;> rw [Sign.apply, abs_lt] <;> omega

theorem Approximates.le {x : Float} {w b : ℚ} (h : Approximates x w) (hb : OnGrid b)
    (hw : w ≤ b) : value x ≤ b := (h.rounds b hb).1 hw

theorem Approximates.ge {x : Float} {w b : ℚ} (h : Approximates x w) (hb : OnGrid b)
    (hw : b ≤ w) : b ≤ value x := (h.rounds b hb).2 hw

/-- A number of the grid is kept as it is. -/
theorem Approximates.value_eq {x : Float} {w : ℚ} (h : Approximates x w) (hw : OnGrid w) :
    value x = w :=
  le_antisymm ((h.rounds w hw).1 le_rfl) ((h.rounds w hw).2 le_rfl)

theorem approximates_add {x y : Float} (hx : IsReal x) (hy : IsReal y)
    (bound : |value x + value y| ≤ 2 ^ 100) : Approximates (x + y) (value x + value y) :=
  (result_add hx.stored hy.stored).approximates bound

theorem approximates_sub {x y : Float} (hx : IsReal x) (hy : IsReal y)
    (bound : |value x - value y| ≤ 2 ^ 100) : Approximates (x - y) (value x - value y) :=
  (result_sub hx.stored hy.stored).approximates bound

theorem approximates_mul {x y : Float} (hx : IsReal x) (hy : IsReal y)
    (bound : |value x * value y| ≤ 2 ^ 100) : Approximates (x * y) (value x * value y) :=
  (result_mul hx.stored hy.stored).approximates bound

theorem approximates_div {x y : Float} (hx : IsReal x) (hy : IsReal y) (h : value y ≠ 0)
    (bound : |value x / value y| ≤ 2 ^ 100) : Approximates (x / y) (value x / value y) :=
  (result_div hx.stored hy.stored h).approximates bound

theorem approximates_ofDyadic {m : Nat} (s : Sign) (hm : 0 < m) (e : Int)
    (bound : |(s.apply 1 * (m * 2 ^ e) : ℚ)| ≤ 2 ^ 100) :
    Approximates (ofDyadic s m e) (s.apply 1 * (m * 2 ^ e)) :=
  (result_round s hm e).approximates bound

theorem HasValue.approximates {x : Float} {v : ℚ} (h : HasValue x v) : Approximates x v := by
  obtain ⟨real, rfl⟩ := h
  exact ⟨real, .refl _⟩

theorem Approximates.neg {x : Float} {w : ℚ} (h : Approximates x w) (bound : |value x| ≤ 2 ^ 100) :
    Approximates (-x) (-w) := by
  have opposite := h.isReal.stored.neg.result
  rw [rational_neg] at opposite
  have near := opposite.approximates (by rw [abs_neg]; exact bound)
  refine ⟨near.isReal, ?_⟩
  have same : value (-x) = -value x := near.value_eq h.isReal.onGrid.neg
  rw [same]
  exact h.rounds.neg

/-! ### Whole numbers -/

theorem hasValue_one : HasValue 1.0 1 := by
  have unpacked : (1.0 : Float).toModel.unpack = .finite .positive (2 ^ 52) (-52) (by decide) := rfl
  exact .of_unpack unpacked (by norm_num [Sign.apply])

theorem ofNat_eq_mul {n : Nat} (h : n < 2 ^ 53) : Float.ofNat n = n.toUInt64.toFloat * 1.0 := by
  rw [Float.ofNat]
  exact dif_pos ⟨h, by omega⟩

theorem abs_natCast_le {n : Nat} (h : n < 2 ^ 53) : |(n : ℚ)| ≤ 2 ^ 100 := by
  rw [abs_of_nonneg (Nat.cast_nonneg n)]
  calc (n : ℚ) ≤ 2 ^ 53 := by exact_mod_cast h.le
    _ ≤ 2 ^ 100 := by norm_num

theorem hasValue_toFloat {n : Nat} (h : n < 2 ^ 53) : HasValue n.toUInt64.toFloat n := by
  have rounded := result_normalize n 0 .positive
  rw [zpow_zero, mul_one, Int.cast_natCast] at rounded
  have same : n.toUInt64.toNat = n := Nat.mod_eq_of_lt (h.trans (by decide))
  have image : n.toUInt64.toFloat =
      ⟨.pack (.normalize .binary64 n.toUInt64.toNat 0 .positive)⟩ := rfl
  have whole : Approximates n.toUInt64.toFloat n := by
    rw [image, same]
    exact rounded.approximates (abs_natCast_le h)
  exact ⟨whole.isReal, whole.value_eq (onGrid_natCast h)⟩

theorem hasValue_ofNat {n : Nat} (h : n < 2 ^ 53) : HasValue (Float.ofNat n) n := by
  obtain ⟨real, whole⟩ := hasValue_toFloat h
  obtain ⟨real_one, one⟩ := hasValue_one
  have product := approximates_mul real real_one
    (by rw [whole, one, mul_one]; exact abs_natCast_le h)
  rw [whole, one, mul_one, ← ofNat_eq_mul h] at product
  exact ⟨product.isReal, product.value_eq (onGrid_natCast h)⟩

/-- A constant that is the number of a whole number. -/
theorem HasValue.of_eq_ofNat {x : Float} {n : Nat} (h : x = Float.ofNat n) (small : n < 2 ^ 53) :
    HasValue x n := by
  rw [h]
  exact hasValue_ofNat small

theorem hasValue_ofInt {n : Int} (h : |n| < 2 ^ 53) : HasValue (Float.ofInt n) n := by
  cases n with
  | ofNat k => exact hasValue_ofNat (n := k) (by simpa using h)
  | negSucc k =>
      have small : k + 1 < 2 ^ 53 := by
        rw [abs_lt] at h
        omega
      have size := hasValue_ofNat small
      have opposite := size.approximates.neg (by rw [size.value_eq]; exact abs_natCast_le small)
      have grid : OnGrid (-((k + 1 : Nat) : ℚ)) := (onGrid_natCast small).neg
      refine ⟨opposite.isReal, ?_⟩
      rw [Int.cast_negSucc]
      exact opposite.value_eq grid

end DesignTokens.Number
