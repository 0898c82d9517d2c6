import DesignTokens.Proofs.CaseParts
import DesignTokens.Proofs.RelativeErrors
import DesignTokens.Proofs.ScannedLiterals

/-!
Durations as they are written in seconds. A literal is measured in milliseconds and printed with
three decimal places, so what is written is its time to the nearest millisecond: the errors of the
scalings are too small to move it. A literal keeps its time if and only if that is a whole number of
milliseconds. Main statement: `inSeconds_nearest`.
-/
namespace DesignTokens

open Number

/-! ### Short numerals -/

theorem Text.lt_of_digitIn {firsts : List Nat} {n d : Nat} (h : digitIn firsts n = some d) :
    d < 10 := by
  induction firsts with
  | nil => cases h
  | cons first firsts ih =>
      rw [digitIn] at h
      split_ifs at h with before inside
      · cases h
        omega
      · exact ih h

theorem Text.lt_of_digit? {c : Char} {d : Nat} (h : digit? c = some d) : d < 10 := by
  rw [digit?] at h
  split_ifs at h with ascii digit
  · cases h
    have table := forall_of_lt_128 (p := fun c => !c.isDigit || decide (c.toNat - '0'.toNat < 10))
      (by decide +kernel) ascii
    simpa [digit] using table
  · exact lt_of_digitIn h

theorem Decimal.digitsValue_lt (t : Text) : digitsValue t < 10 ^ t.length := by
  induction t using List.reverseRecOn with
  | nil => exact Nat.one_pos
  | append_singleton t c ih =>
      have digit : (Text.digit? c).getD 0 < 10 := by
        cases hc : Text.digit? c with
        | none => exact Nat.succ_pos 9
        | some d => exact Text.lt_of_digit? hc
      have value : digitsValue (t ++ [c]) = 10 * digitsValue t + (Text.digit? c).getD 0 := by
        rw [digitsValue, List.foldl_append]
        rfl
      rw [value, List.length_append, List.length_singleton, pow_succ]
      omega

namespace Numeral

variable {n : Numeral}

/-- The digits of a numeral are among those of a text that starts with it. -/
theorem IsWritten.length_digits_le (h : n.IsWritten) (rest : Text) :
    (n.whole ++ n.fraction.getD []).length ≤ ((n.text ++ rest).filter Text.isDigit).length := by
  have digits : (n.whole ++ n.fraction.getD []).filter Text.isDigit =
      n.whole ++ n.fraction.getD [] := by
    refine List.filter_eq_self.2 fun c hc => ?_
    rcases List.mem_append.1 hc with whole | fraction
    · exact h.whole c whole
    · cases hf : n.fraction with
      | none =>
          rw [hf] at fraction
          cases fraction
      | some f =>
          rw [hf] at fraction
          exact (h.fraction f hf).2 c fraction
  have inside : (n.whole ++ n.fraction.getD []).Sublist (n.text ++ rest) := by
    have size : (n.whole ++ n.fraction.getD []).Sublist n.size := by
      rw [size]
      refine (List.Sublist.refl _).append ?_
      cases n.fraction with
      | none => exact List.Sublist.refl _
      | some f => exact List.sublist_cons_self '.' f
    rw [text_eq]
    exact size.trans ((List.sublist_append_right _ _).trans (List.sublist_append_left _ _))
  rw [← digits]
  exact (inside.filter _).length_le

/-- A numeral of a few digits is a fraction, and is read as the number next to it. -/
theorem exists_fraction (short : (n.whole ++ n.fraction.getD []).length ≤ 9) :
    ∃ (a : Int) (e : Nat), |a| ≤ 10 ^ 9 ∧ e ≤ 9 ∧ n.decimal.exact = a / 10 ^ e ∧
      Approximates n.toFloat n.decimal.exact := by
  let m := Decimal.digitsValue (n.whole ++ n.fraction.getD [])
  let e := (n.fraction.getD []).length
  have mantissa : m ≤ 10 ^ 9 :=
    (Decimal.digitsValue_lt _).le.trans (Nat.pow_le_pow_right (by omega) short)
  have places : e ≤ 9 := by
    rw [List.length_append] at short
    omega
  refine ⟨if n.negative then -m else m, e, ?_, places, ?_,
    approximates_exact (mantissa.trans_lt (by norm_num)) places rfl⟩
  · split_ifs
    · rw [abs_neg]
      exact_mod_cast mantissa
    · exact_mod_cast mantissa
  · change (if n.negative then -1 else 1) * ((m : ℚ) * 10 ^ (-(e : Int))) = _
    rw [zpow_neg, zpow_natCast, ← div_eq_mul_inv]
    split_ifs
    · push_cast
      ring
    · push_cast
      ring

end Numeral

namespace Duration

variable {n : Numeral} {unit : Text}

/-! ### What durations denote -/

/-- The time that a text denotes, in seconds: a numeral with a unit. -/
def time? (t : Text) : Option ℚ :=
  (Numeral.scan? t).bind fun (n, unit) =>
    if unit = "ms".toList then some (n.decimal.exact / 1000)
    else if unit = "s".toList then some n.decimal.exact
    else none

theorem scan?_append (h : n.IsWritten) (hu : unit ∈ unitNames) :
    Numeral.scan? (n.text ++ unit) = some (n, unit) := by
  have scanned : Numeral.scan? (n.text ++ (unit ++ [])) = some (n, unit ++ []) :=
    areUnits.scan?_append h hu
  rwa [List.append_nil] at scanned

theorem time?_milliseconds (h : n.IsWritten) :
    time? (n.text ++ "ms".toList) = some (n.decimal.exact / 1000) := by
  rw [time?, scan?_append h (by decide)]
  rfl

theorem time?_seconds (h : n.IsWritten) : time? (n.text ++ ['s']) = some n.decimal.exact := by
  rw [time?, scan?_append h (by decide)]
  rfl

/-! ### How durations are measured -/

/-- What is neither cut off nor changed in a literal that is measured. -/
def isKept (c : Char) : Bool :=
  !Text.isBlank c && Text.lowerChar c == c && c != 'Σ' && c != 'İ'

theorem isKept_of_isDigit {c : Char} (h : Text.isDigit c) : isKept c := by
  have sigma : c ≠ 'Σ' := by
    rintro rfl
    exact absurd h (by decide)
  have dotted : c ≠ 'İ' := by
    rintro rfl
    exact absurd h (by decide)
  have solid : Text.isBlank c = false :=
    Length.not_isBlank_of_joinsNext (by simp [Length.joinsNext, Text.isWord_of_isDigit h])
  simp [isKept, solid, Text.lowerChar_of_isDigit h, sigma, dotted]

/-- Neither blanks nor capital letters are in a duration. -/
theorem lower_trim_append (h : n.IsWritten) (hu : unit ∈ unitNames) :
    Text.lower (Text.trim (n.text ++ unit)) = n.text ++ unit := by
  have units : unitNames.all fun unit => unit.all isKept := by decide +kernel
  have kept : ∀ c ∈ n.text ++ unit, isKept c := by
    intro c hc
    rcases List.mem_append.1 hc with number | letter
    · rcases h.mem_text_cases c number with digit | rfl | rfl
      · exact isKept_of_isDigit digit
      · decide
      · decide
    · exact List.all_eq_true.1 (List.all_eq_true.1 units unit hu) c letter
  simp only [isKept, Bool.and_eq_true, Bool.not_eq_true', beq_iff_eq, bne_iff_ne] at kept
  rw [Text.trim_of_solid fun c hc => (kept c hc).1.1.1]
  exact Text.lower_of_unchanged fun c hc => ⟨(kept c hc).1.1.2, (kept c hc).1.2, (kept c hc).2⟩

theorem milliseconds_milliseconds (h : n.IsWritten) :
    milliseconds (n.text ++ "ms".toList) = n.toFloat := by
  have ends : "ms".toList.isSuffixOf (n.text ++ "ms".toList) :=
    List.isSuffixOf_iff_suffix.2 (List.suffix_append _ _)
  rw [milliseconds, lower_trim_append h (by decide), scan?_append h (by decide)]
  exact if_pos ends

/-- The numeral in front of a single `s` ends with a digit. -/
theorem milliseconds_seconds (h : n.IsWritten) :
    milliseconds (n.text ++ "s".toList) = n.toFloat * 1000.0 := by
  have ends : ¬ "ms".toList.isSuffixOf (n.text ++ "s".toList) := by
    intro ends
    obtain ⟨front, text⟩ := List.isSuffixOf_iff_suffix.1 ends
    have split : (front ++ ['m']) ++ ['s'] = n.text ++ ['s'] := by
      rw [List.append_assoc]
      exact text
    have last := h.getLast?_text
    rw [← List.append_cancel_right split, List.getLast?_concat] at last
    exact absurd last (by decide)
  rw [milliseconds, lower_trim_append h (by decide), scan?_append h (by decide)]
  exact if_neg ends

theorem hasValue_thousand : HasValue 1000.0 1000 := .of_eq_ofNat (n := 1000) rfl (by omega)

theorem abs_mul_thousand_le {a : Int} (small : |a| ≤ 10 ^ 9) : |a * 1000| ≤ 10 ^ 12 := by
  rw [abs_mul, show |(1000 : Int)| = 1000 from rfl]
  omega

section Scaled

variable {x : Float} {w : ℚ} {a : Int} {e : Nat} (h : Approximates x w)
  (fraction : w = a / 10 ^ e) (small : |a| ≤ 10 ^ 9) (places : e ≤ 9)
include h fraction small places

theorem drifts_thousandth : Drifts 2 (x / 1000.0) (w / 1000) := by
  have first : IsModerate w :=
    fraction ▸ isModerate_fraction (small.trans (by norm_num)) (by omega)
  have second : IsModerate (w / 1000) := by
    have smaller : w / 1000 = a / 10 ^ (e + 3) := by
      rw [fraction, div_div, pow_add]
      norm_num
    rw [smaller]
    exact isModerate_fraction (small.trans (by norm_num)) (by omega)
  exact (Drifts.of_approximates first h).div (by omega) hasValue_thousand (by norm_num) second

theorem drifts_there_and_back : Drifts 3 (x * 1000.0 / 1000.0) w := by
  have first : IsModerate w :=
    fraction ▸ isModerate_fraction (small.trans (by norm_num)) (by omega)
  have second : IsModerate (w * 1000) := by
    have larger : w * 1000 = (a * 1000 : Int) / 10 ^ e := by
      rw [fraction]
      push_cast
      ring
    rw [larger]
    exact isModerate_fraction (abs_mul_thousand_le small) (by omega)
  have back : w * 1000 / 1000 = w := mul_div_cancel_right₀ _ (by norm_num)
  have product := (Drifts.of_approximates first h).mul (by omega) hasValue_thousand second
  have quotient := product.div (by omega) hasValue_thousand (by norm_num) (back.symm ▸ first)
  rwa [back] at quotient

end Scaled

/-- The time of a short duration in seconds, and the number that is printed for it. -/
theorem exists_time (h : n.IsWritten) (hu : unit ∈ unitNames)
    (short : ((n.text ++ unit).filter Text.isDigit).length ≤ 9) :
    ∃ (t : ℚ) (a : Int) (e : Nat), time? (n.text ++ unit) = some t ∧
      Drifts 3 (milliseconds (n.text ++ unit) / 1000.0) t ∧ t * 1000 = a / (10 ^ e : Nat) ∧
      |a| ≤ 10 ^ 12 := by
  obtain ⟨a, e, small, places, exact, read⟩ :=
    Numeral.exists_fraction ((h.length_digits_le unit).trans short)
  simp only [unitNames, List.mem_cons, List.not_mem_nil, or_false] at hu
  obtain rfl | rfl := hu
  · refine ⟨_, a, e, time?_milliseconds h, ?_, ?_, small.trans (by norm_num)⟩
    · rw [milliseconds_milliseconds h]
      exact (drifts_thousandth read exact small places).mono (by omega)
    · rw [div_mul_cancel₀ _ (by norm_num), exact]
      push_cast
      rfl
  -- seconds are scaled to milliseconds and back, so two more results add their errors
  · refine ⟨_, a * 1000, e, time?_seconds h, ?_, ?_, abs_mul_thousand_le small⟩
    · rw [milliseconds_seconds h]
      exact drifts_there_and_back read exact small places
    · rw [exact]
      push_cast
      ring

/-- What is written for a duration of at most nine digits is its time to the nearest millisecond; of
two that are equally near it may be either. So a duration keeps its time if and only if that is a
whole number of milliseconds. -/
theorem inSeconds_nearest {value literal : Text} (h : literal ∈ literals value)
    (short : (literal.filter Text.isDigit).length ≤ 9) :
    ∃ (t : ℚ) (k : Int), time? literal = some t ∧
      time? (inSeconds literal) = some ((k : ℚ) / 1000) ∧ |k - t * 1000| ≤ 1 / 2 ∧
      (time? (inSeconds literal) = time? literal ↔ ∃ m : Int, t * 1000 = m) := by
  obtain ⟨n, unit, hu, written, rfl⟩ := exists_of_mem_literals h
  obtain ⟨t, a, e, time, drifts, fraction, small⟩ := exists_time written hu short
  have power : (10 : ℚ) ^ 3 = 1000 := by norm_num
  obtain ⟨m, k, isWritten, text, exact, near⟩ := drifts.exists_trimmed (by omega)
    (by omega : 3 ≠ 0) (Nat.pow_pos (by omega)) (power.symm ▸ fraction) small
  rw [power] at exact near
  have emitted : time? (inSeconds (n.text ++ unit)) = some ((k : ℚ) / 1000) := by
    rw [inSeconds, text, time?_seconds isWritten, exact]
  refine ⟨t, k, time, emitted, near, ?_⟩
  rw [emitted, time, Option.some.injEq, div_eq_iff (by norm_num)]
  constructor
  · exact fun same => ⟨k, same.symm⟩
  · rintro ⟨whole, same⟩
    rw [same] at near ⊢
    rw [eq_of_abs_sub_le_half near]

theorem inSeconds_nearest_fourDecimals :
    "1.2345s".toList ∈ literals "opacity 1.2345s ease".toList ∧
      ("1.2345s".toList.filter Text.isDigit).length ≤ 9 ∧
      ∃ (t : ℚ) (k : Int), time? "1.2345s".toList = some t ∧
        time? (inSeconds "1.2345s".toList) = some ((k : ℚ) / 1000) ∧ |k - t * 1000| ≤ 1 / 2 ∧
        (time? (inSeconds "1.2345s".toList) = time? "1.2345s".toList ↔
          ∃ m : Int, t * 1000 = m) := by
  have counted : "1.2345s".toList ∈ literals "opacity 1.2345s ease".toList := by decide +kernel
  have short : ("1.2345s".toList.filter Text.isDigit).length ≤ 9 := by decide
  exact ⟨counted, short, inSeconds_nearest counted short⟩

/-- A time below half a millisecond is lost. -/
theorem not_time?_inSeconds_eq :
    "0.4ms".toList ∈ literals "opacity 0.4ms".toList ∧
      ("0.4ms".toList.filter Text.isDigit).length ≤ 9 ∧
      time? (inSeconds "0.4ms".toList) ≠ time? "0.4ms".toList := by
  decide +kernel

end Duration

end DesignTokens
