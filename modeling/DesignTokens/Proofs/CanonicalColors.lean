import DesignTokens.Proofs.ColorSyntaxes
import DesignTokens.Proofs.CountedTokens
import DesignTokens.Proofs.DeclarableValues
import DesignTokens.Proofs.LiteralColors
import DesignTokens.Proofs.RelativeErrors

/-!
Texts of colors, read again. The text of a color is one color literal, and the color that is read
from it has the same levels and, up to the places that are printed, the same opacity. So it has the
same text again, but where the opacity is not full and yet printed as 1: such a color is read as an
opaque one. Main statement: `isFixed_iff_of_ofLiteral`.
-/
namespace DesignTokens

open Number
open Float.Model.UnpackedFloat (Sign)

namespace Number

/-- A number in the place of one of the unit interval is kept by the clamp. -/
theorem Approximates.unitClamp {x : Float} {w : ℚ} (h : Approximates x w) (lower : 0 ≤ w)
    (upper : w ≤ 1) : Approximates (clamp x 0.0 1.0) w := by
  have least := h.ge onGrid_zero lower
  have most := h.le onGrid_one upper
  refine ⟨(between_unitClamp x).isReal, ?_⟩
  rw [value_clamp h.isReal hasValue_zero.isReal hasValue_one.isReal, hasValue_zero.value_eq,
    hasValue_one.value_eq, max_eq_right least, min_eq_right most]
  exact h.rounds

end Number

namespace Rgba

open Color

/-- The color that is read from the text of the color has that text again. -/
def IsFixed (c : Rgba) : Prop := ∃ d, ofLiteral c.text = .ok d ∧ d.text = c.text

/-! ### Levels -/

theorem level_eq {x : Float} {n : Nat} (h : HasValue x n) (small : n ≤ 255) : level x = n := by
  obtain ⟨real, whole⟩ := h
  obtain ⟨realHalf, half⟩ := hasValue_half
  have size : (n : ℚ) ≤ 255 := by exact_mod_cast small
  have sum := approximates_add real realHalf
    (by rw [whole, half, abs_of_nonneg (by positivity)]; linarith)
  have grid : OnGrid (n + 1 / 2) :=
    ⟨2 * n + 1, -1, by rw [abs_lt]; omega, by omega, by push_cast; ring⟩
  have middle := sum.value_eq (by rw [whole, half]; exact grid)
  have nearest : nearest x = n := by
    rw [nearest, floor_eq sum.isReal, middle, whole, half, Int.floor_eq_iff]
    push_cast
    constructor <;> linarith
  rw [level, nearest]
  omega

theorem level_le (x : Float) : level x ≤ 255 := by
  rw [level]
  omega

theorem exists_hexDigits {n : Nat} (h : n ≤ 255) :
    ∃ a b, Text.hexDigits 2 n = [a, b] ∧ Decimal.int? 16 [a, b] = some (n : Int) ∧
      (isHexDigit a ∧ isHexDigit b) ∧ a ≠ '#' := by
  have table : ∀ n < 256, (Text.hexDigits 2 n).length = 2 ∧
      Decimal.int? 16 (Text.hexDigits 2 n) = some (n : Int) := by decide +kernel
  obtain ⟨length, read⟩ := table n (by omega)
  obtain ⟨a, b, same⟩ := List.length_eq_two.1 length
  have digit : ∀ c ∈ [a, b], isHexDigit c ∧ c ≠ '#' := by
    have all : "0123456789abcdef".toList.all fun c => isHexDigit c && c != '#' := by decide
    intro c hc
    rw [← same] at hc
    simpa using List.all_eq_true.1 all c (Text.mem_of_mem_hexDigits c hc)
  rw [same] at read
  exact ⟨a, b, same, read, ⟨(digit a (by simp)).1, (digit b (by simp)).1⟩, (digit a (by simp)).2⟩

theorem isArgument_text {n : Numeral} (h : n.IsWritten) : IsArgument n.text where
  ne_nil := h.text_ne_nil
  solid := h.solid
  comma_notMem mem := by rcases h.mem_text_cases _ mem with digit | h | h <;> cases ‹_›
  slash_notMem mem := by rcases h.mem_text_cases _ mem with digit | h | h <;> cases ‹_›

theorem endsWith_percent_text {n : Numeral} (h : n.IsWritten) : endsWith '%' n.text = false := by
  have last := h.getLast?_text
  rw [endsWith]
  cases hl : n.text.getLast? with
  | none => rfl
  | some c =>
      rw [hl, Option.any_some] at last
      rw [beq_eq_false_iff_ne]
      rintro ⟨⟩
      cases last

/-- The digits of a whole number as a numeral. -/
theorem isWritten_digits (n : Nat) : Numeral.IsWritten ⟨false, digits n, none⟩ :=
  ⟨fun c hc => Text.isDigit_of_ascii (isDigit_of_mem_digits c hc), by simp,
    fun _ => List.ne_nil_of_length_pos Nat.length_toDigits_pos⟩

theorem text_digits (n : Nat) : Numeral.text ⟨false, digits n, none⟩ = digits n := by
  simp [Numeral.text]

theorem parseChannel_digits {n : Nat} (h : n ≤ 255) :
    ∃ x, parseChannel (digits n) = .ok x ∧ level x = n := by
  have read := Decimal.floatAtStart_text (isWritten_digits n) 0.0
  have percent := endsWith_percent_text (isWritten_digits n)
  have decimal : (⟨false, digits n, none⟩ : Numeral).decimal = ⟨false, n, -((0 : Nat) : Int)⟩ := by
    simp [Numeral.decimal, digitsValue_digits]
  have number := approximates_toFloat (m := n) (e := 0) (by omega) (by omega)
  rw [← decimal, pow_zero, div_one] at number
  change Approximates (Numeral.toFloat ⟨false, digits n, none⟩) n at number
  rw [text_digits] at read percent
  have whole := number.value_eq (onGrid_natCast (by omega))
  have size : (n : ℚ) ≤ 255 := by exact_mod_cast h
  refine ⟨clamp (Numeral.toFloat ⟨false, digits n, none⟩) 0.0 255.0, ?_, ?_⟩
  · rw [parseChannel, percent, read]
    rfl
  · refine level_eq ⟨(between_channelClamp _).isReal, ?_⟩ h
    rw [value_clamp number.isReal hasValue_zero.isReal hasValue_top.isReal, hasValue_zero.value_eq,
      hasValue_top.value_eq, whole, max_eq_right (Nat.cast_nonneg n), min_eq_right size]

/-! ### The text of a color -/

/-- The same level in each channel. -/
structure SameLevels (c d : Rgba) : Prop where
  red : level c.red = level d.red
  green : level c.green = level d.green
  blue : level c.blue = level d.blue

theorem SameLevels.text_eq_of_isOpaque {c d : Rgba} (h : SameLevels c d) (hc : c.alpha == 1.0)
    (hd : d.alpha == 1.0) : c.text = d.text := by
  simp only [text, if_pos hc, if_pos hd, h.red, h.green, h.blue]

theorem SameLevels.text_eq_of_trimmed {c d : Rgba} (h : SameLevels c d) (hc : ¬ c.alpha == 1.0)
    (hd : ¬ d.alpha == 1.0) (alpha : trimmed 4 c.alpha = trimmed 4 d.alpha) : c.text = d.text := by
  simp only [text, if_neg hc, if_neg hd, h.red, h.green, h.blue, alpha]

theorem text_of_isOpaque {c : Rgba} (h : c.alpha == 1.0) :
    c.text = '#' :: (Text.hexDigits 2 (level c.red) ++ (Text.hexDigits 2 (level c.green) ++
      Text.hexDigits 2 (level c.blue))) := by
  simp [text, if_pos h]

/-- The arguments of the text of a color that is not opaque. -/
def argumentsText (c : Rgba) : Text :=
  digits (level c.red) ++ ',' :: (' ' :: digits (level c.green) ++
    ',' :: (' ' :: digits (level c.blue) ++ ',' :: (' ' :: trimmed 4 c.alpha)))

theorem text_of_not_isOpaque {c : Rgba} (h : ¬ c.alpha == 1.0) :
    c.text = call "rgba".toList c.argumentsText := by
  simp [text, if_neg h, call, argumentsText]

theorem isWritten_ascii {c : Char} (h : isWritten c) :
    c.toNat < 128 ∧ c.toLower = c ∧ (Text.isBlank c → c = ' ') := by
  have ascii : c.toNat < 128 := by
    simp only [isWritten, isNumberChar, Bool.or_eq_true, List.contains_iff_mem] at h
    rcases h with (digit | mark) | letter
    · exact Text.lt_128_of_isDigit digit
    · have all : "-.infa".toList.all fun c => c.toNat < 128 := by decide
      simpa using List.all_eq_true.1 all c mark
    · have all : "s#0123456789abcdefrg(, )".toList.all fun c => c.toNat < 128 := by decide
      simpa using List.all_eq_true.1 all c letter
  have table : ∀ n < 128, isWritten (Char.ofNat n) → (Char.ofNat n).toLower = Char.ofNat n ∧
      (Text.isBlank (Char.ofNat n) → Char.ofNat n = ' ') := by decide +kernel
  have entry := table c.toNat ascii
  rw [Char.ofNat_toNat] at entry
  exact ⟨ascii, entry h⟩

theorem lower_text (c : Rgba) : Text.lower c.text = c.text := by
  have plain : ∀ d ∈ c.text, d.toNat < 128 ∧ d.toLower = d ∧ (Text.isBlank d → d = ' ') :=
    fun d hd => isWritten_ascii (isWritten_text c d hd)
  exact Text.lower_of_ascii fun d hd => ⟨(plain d hd).1, (plain d hd).2.1⟩

theorem trim_text (c : Rgba) : Text.trim c.text = c.text := by
  by_cases full : c.alpha == 1.0
  · have solid : ∀ d ∈ c.text, Text.isBlank d = false := by
      have all : ('#' :: "0123456789abcdef".toList).all (!Text.isBlank ·) := by decide
      intro d hd
      rw [text_of_isOpaque full] at hd
      simp only [List.mem_cons, List.mem_append] at hd
      refine (Bool.not_eq_true' _).mp (List.all_eq_true.1 all d ?_)
      rcases hd with sharp | red | green | blue
      · exact List.mem_cons.2 (.inl sharp)
      · exact List.mem_cons_of_mem _ (Text.mem_of_mem_hexDigits d red)
      · exact List.mem_cons_of_mem _ (Text.mem_of_mem_hexDigits d green)
      · exact List.mem_cons_of_mem _ (Text.mem_of_mem_hexDigits d blue)
    exact Text.trim_of_solid solid
  · have last : c.text.getLast?.any Text.isBlank = false := by
      rw [text_of_not_isOpaque full, call, List.getLast?_append_cons, ← List.cons_append,
        List.getLast?_concat]
      decide
    have first : Text.nextIs Text.isBlank c.text = false := by
      rw [text_of_not_isOpaque full]
      rfl
    exact Text.trim_of_ends first last

/-! ### Reading the text -/

theorem ofLiteral_text_of_isOpaque {c : Rgba} (h : c.alpha == 1.0) :
    ∃ d, ofLiteral c.text = .ok d ∧ d.SameLevels c ∧ d.alpha = 1.0 := by
  obtain ⟨r, r', red, readRed, -, notSharp⟩ := exists_hexDigits (level_le c.red)
  obtain ⟨g, g', green, readGreen, -, -⟩ := exists_hexDigits (level_le c.green)
  obtain ⟨b, b', blue, readBlue, -, -⟩ := exists_hexDigits (level_le c.blue)
  have text := text_of_isOpaque h
  rw [red, green, blue] at text
  have channel (x : Float) : level (Float.ofInt (level x)) = level x :=
    level_eq (hasValue_ofNat (n := level x) ((level_le x).trans_lt (by omega))) (level_le x)
  have hex : ofHex c.text = ⟨Float.ofInt (level c.red), Float.ofInt (level c.green),
      Float.ofInt (level c.blue), 1.0⟩ := by
    rw [ofHex, trim_text, text]
    simp [notSharp, ofLongHex?, readRed, readGreen, readBlue]
  have start : "#".toList.isPrefixOf c.text := by
    rw [text]
    rfl
  refine ⟨ofHex c.text, ?_, ?_, ?_⟩
  · rw [ofLiteral, trim_text, lower_text, if_pos start]
  · rw [hex]
    exact ⟨channel c.red, channel c.green, channel c.blue⟩
  · rw [hex]

theorem opacity_text {n : Numeral} (h : n.IsWritten) :
    opacity (some n.text) = clamp n.toFloat 0.0 1.0 := by
  have trimmed := Text.trim_of_solid h.solid
  obtain ⟨c, rest, text⟩ := List.exists_cons_of_ne_nil h.text_ne_nil
  have read := Decimal.floatAtStart_text h 1.0
  have percent := endsWith_percent_text h
  rw [opacity, Option.map_some, trimmed]
  rw [text] at read percent ⊢
  simp [read, percent]

theorem argument_eq {parts args : List Text} {i : Nat} {a : Text} (same : parts = args)
    (h : args[i]? = some a) (hne : a ≠ []) : argument parts i = a := by
  obtain ⟨c, rest, rfl⟩ := List.exists_cons_of_ne_nil hne
  rw [argument, same, h]

theorem ofLiteral_text_of_not_isOpaque {c : Rgba} (h : ¬ c.alpha == 1.0) {n : Numeral}
    (hn : n.IsWritten) (printed : trimmed 4 c.alpha = n.text) :
    ∃ d, ofLiteral c.text = .ok d ∧ d.SameLevels c ∧ d.alpha = clamp n.toFloat 0.0 1.0 := by
  obtain ⟨r, readRed, red⟩ := parseChannel_digits (level_le c.red)
  obtain ⟨g, readGreen, green⟩ := parseChannel_digits (level_le c.green)
  obtain ⟨b, readBlue, blue⟩ := parseChannel_digits (level_le c.blue)
  have text := text_of_not_isOpaque h
  have none : ∀ c ∈ ([] : Text), Text.isBlank c := by simp
  have space : ∀ c ∈ [' '], Text.isBlank c := by
    have blank : Text.isBlank ' ' := by decide
    simpa using blank
  have channel (x : Float) : IsArgument (digits (level x)) := by
    have written := isArgument_text (isWritten_digits (level x))
    rwa [text_digits] at written
  have args : ∀ a ∈ [digits (level c.red), digits (level c.green), digits (level c.blue), n.text],
      IsArgument a := by
    simpa using ⟨channel c.red, channel c.green, channel c.blue, isArgument_text hn⟩
  have listed : Listed [digits (level c.red), digits (level c.green), digits (level c.blue), n.text]
      c.argumentsText := by
    rw [argumentsText, printed]
    exact .cons ⟨[], [], by simp, none, none⟩ (.cons ⟨[' '], [], by simp, space, none⟩
      (.cons ⟨[' '], [], by simp, space, none⟩ (.last ⟨[' '], [], by simp, space, none⟩)))
  have name : '(' ∉ "rgba".toList := by decide
  have read := listed.arguments_eq name args
  rw [← text] at read
  refine ⟨⟨r, g, b, clamp n.toFloat 0.0 1.0⟩, ?_, ⟨red, green, blue⟩, rfl⟩
  have first := argument_eq (i := 0) read rfl (channel c.red).ne_nil
  have second := argument_eq (i := 1) read rfl (channel c.green).ne_nil
  have third := argument_eq (i := 2) read rfl (channel c.blue).ne_nil
  have sharp : "#".toList.isPrefixOf c.text = false := by
    rw [text]
    rfl
  have start : "rgb".toList.isPrefixOf c.text := by
    rw [text]
    rfl
  rw [ofLiteral, trim_text, lower_text, sharp, if_neg Bool.false_ne_true, if_pos start, ofRgbCall,
    first, second, third, readRed, readGreen, readBlue, read, ← opacity_text hn]
  rfl

/-! ### Fixed points -/

theorem isOpaque_iff {x : Float} (h : IsReal x) : (x == 1.0) = true ↔ value x = 1 := by
  rw [beq_iff h hasValue_one.isReal, hasValue_one.value_eq]

theorem isOpaque_iff_of_approximates {x : Float} {k : Nat} (hk : k ≤ 10 ^ 4)
    (h : Approximates x (k / 10 ^ 4)) : (x == 1.0) = true ↔ k = 10 ^ 4 := by
  obtain ⟨lower, upper⟩ := units_range hk
  rw [isOpaque_iff h.isReal]
  constructor
  · intro one
    by_contra less
    have most : (k : ℚ) ≤ 9999 := by
      exact_mod_cast (show k ≤ 9999 by omega)
    have small : step = 1 / 2 ^ 40 := rfl
    have close := abs_le.1 (h.close (abs_le.2 ⟨by linarith, by linarith⟩))
    norm_num at close
    linarith
  · rintro rfl
    norm_num at h
    exact h.value_eq onGrid_one

theorem isFixed_of_isOpaque {c : Rgba} (h : c.alpha == 1.0) : c.IsFixed := by
  obtain ⟨d, read, same, alpha⟩ := ofLiteral_text_of_isOpaque h
  have full : d.alpha == 1.0 := by
    rw [alpha, isOpaque_iff hasValue_one.isReal, hasValue_one.value_eq]
  exact ⟨d, read, same.text_eq_of_isOpaque full h⟩

/-- An opacity that is next to a number of four places is printed as that number. -/
theorem isFixed_of_approximates {c : Rgba} {k : Nat} (hk : k ≤ 10 ^ 4)
    (h : Approximates c.alpha (k / 10 ^ 4)) : c.IsFixed := by
  by_cases full : c.alpha == 1.0
  · exact isFixed_of_isOpaque full
  obtain ⟨lower, upper⟩ := units_range hk
  have printed := trimmed_of_approximates (by omega) hk (by omega) h
  obtain ⟨d, read, same, alpha⟩ :=
    ofLiteral_text_of_not_isOpaque full (isWritten_unitsNumeral 4 .positive k) printed
  have near := approximates_unitsNumeral (by omega) hk .positive
  simp only [Sign.apply, Int.cast_one, one_mul] at near
  have near := near.unitClamp lower upper
  rw [← alpha] at near
  have fraction : ¬ d.alpha == 1.0 := by
    rwa [isOpaque_iff_of_approximates hk near, ← isOpaque_iff_of_approximates hk h]
  refine ⟨d, read, same.text_eq_of_trimmed fraction full ?_⟩
  rw [printed, trimmed_of_approximates (by omega) hk (by omega) near]

/-- What is read from the text of a color that is not opaque is next to a number of four places,
which is the printed one if the opacity is not negative. -/
theorem exists_read {c : Rgba} (h : Between (-1) 1 c.alpha) (fraction : ¬ c.alpha == 1.0) :
    ∃ (d : Rgba) (k : Nat), ofLiteral c.text = .ok d ∧ d.SameLevels c ∧ k ≤ 10 ^ 4 ∧
      Approximates d.alpha (k / 10 ^ 4) ∧ (0 ≤ value c.alpha →
        trimmed 4 c.alpha = (unitsNumeral 4 .positive k).text ∧
          |(k : ℚ) - value c.alpha * 10 ^ 4| ≤ 1 / 2) := by
  obtain ⟨s, k, printed⟩ := exists_printsUnits h.isReal 4
  have near := abs_le.1 printed.near
  have sign := printed.value_eq
  have size : |value c.alpha| ≤ 1 := abs_le.2 ⟨h.lower, h.upper⟩
  have hk : k ≤ 10 ^ 4 := by
    have : (k : ℚ) < 10 ^ 4 + 1 := by linarith
    have : k < 10 ^ 4 + 1 := by exact_mod_cast this
    omega
  obtain ⟨lower, upper⟩ := units_range hk
  obtain ⟨d, read, same, alpha⟩ := ofLiteral_text_of_not_isOpaque fraction
    (isWritten_unitsNumeral 4 s k) (printed.trimmed_eq (by omega))
  have number := approximates_unitsNumeral (by omega) hk s
  cases s with
  | positive =>
      simp only [Sign.apply, Int.cast_one, one_mul] at number sign
      refine ⟨d, k, read, same, hk, ?_, fun _ => ⟨printed.trimmed_eq (by omega), ?_⟩⟩
      · rw [alpha]
        exact number.unitClamp lower upper
      · rw [sign]
        exact printed.near
  | negative =>
      simp only [Sign.apply, Int.cast_neg, Int.cast_one, neg_mul, one_mul] at number sign
      refine ⟨d, 0, read, same, by omega, ?_, fun least => ?_⟩
      · have below := number.le onGrid_zero (by linarith)
        have zero : value d.alpha = 0 := by
          rw [alpha, value_clamp number.isReal hasValue_zero.isReal hasValue_one.isReal,
            hasValue_zero.value_eq, hasValue_one.value_eq, max_eq_left below,
            min_eq_right zero_le_one]
        have real : IsReal d.alpha := alpha ▸ (between_unitClamp _).isReal
        simpa using HasValue.approximates ⟨real, zero⟩
      · have zero : value c.alpha = 0 := by
          rw [abs_of_nonneg least] at sign
          linarith
        have none : k = 0 := by
          rw [zero, abs_zero] at near
          have : (k : ℚ) < 1 := by linarith
          have : k < 1 := by exact_mod_cast this
          omega
        subst none
        exact ⟨printed.trimmed_eq (by omega), by norm_num [zero]⟩

/-- The text of the color that is read from the text of a color is read as that text. -/
theorem exists_isFixed_of_text {c : Rgba} (h : Between (-1) 1 c.alpha) :
    ∃ d, ofLiteral c.text = .ok d ∧ d.IsFixed := by
  by_cases full : c.alpha == 1.0
  · obtain ⟨d, read, -, alpha⟩ := ofLiteral_text_of_isOpaque full
    refine ⟨d, read, isFixed_of_isOpaque ?_⟩
    rw [alpha, isOpaque_iff hasValue_one.isReal, hasValue_one.value_eq]
  · obtain ⟨d, k, read, -, hk, near, -⟩ := exists_read h full
    exact ⟨d, read, isFixed_of_approximates hk near⟩

theorem hasValue_border : HasValue 0.99995 (9006748894778255 / 2 ^ 53) := by
  have unpacked : (0.99995 : Float).toModel.unpack =
      .finite .positive 9006748894778255 (-53) (by decide) := rfl
  exact .of_unpack unpacked (by norm_num [Sign.apply])

theorem approximates_border : Approximates 0.99995 (99995 / 10 ^ 5) :=
  (approximates_ofScientific (m := 99995) (e := 5) (by omega) (by omega)).1

/-- No number lies on the border between the opacities that are printed as 1 and the others. -/
theorem value_ne_border {x : Float} (h : IsReal x) : value x ≠ 99995 / 10 ^ 5 := by
  intro same
  have least := approximates_border.le h.onGrid same.ge
  rw [hasValue_border.value_eq, same] at least
  norm_num at least

theorem lt_border_iff {x : Float} (h : IsReal x) : x < 0.99995 ↔ value x < 99995 / 10 ^ 5 := by
  rw [lt_iff h hasValue_border.isReal]
  constructor
  · intro less
    by_contra more
    exact absurd (approximates_border.le h.onGrid (not_lt.1 more)) (not_le.2 less)
  · intro less
    rw [hasValue_border.value_eq]
    exact less.trans (by norm_num)

/-- An opacity that is not full is lost where it is printed as 1. -/
theorem isFixed_iff {c : Rgba} (h : Between 0 1 c.alpha) :
    c.IsFixed ↔ c.alpha == 1.0 ∨ c.alpha < 0.99995 := by
  by_cases full : c.alpha == 1.0
  · exact iff_of_true (isFixed_of_isOpaque full) (.inl full)
  have range : Between (-1) 1 c.alpha := ⟨h.isReal, by linarith [h.lower], h.upper⟩
  obtain ⟨d, k, read, same, hk, near, printed⟩ := exists_read range full
  obtain ⟨text, units⟩ := printed h.lower
  have units := abs_le.1 units
  rw [or_iff_right full, lt_border_iff h.isReal]
  have full_iff := isOpaque_iff_of_approximates hk near
  by_cases top : k = 10 ^ 4
  · apply iff_of_false
    · rintro ⟨e, again, fixed⟩
      obtain rfl : d = e := Except.ok.inj (read.symm.trans again)
      rw [text_of_isOpaque (full_iff.2 top), text_of_not_isOpaque full] at fixed
      cases fixed
    · rw [top] at units
      push_cast at units
      linarith
  · apply iff_of_true
    · refine ⟨d, read, same.text_eq_of_trimmed (mt full_iff.1 top) full ?_⟩
      rw [text, trimmed_of_approximates (by omega) hk (by omega) near]
    · have most : (k : ℚ) ≤ 9999 := by
        exact_mod_cast (show k ≤ 9999 by omega)
      exact lt_of_le_of_ne (by linarith) (value_ne_border h.isReal)

/-! ### Opacity of what is read -/

theorem between_opacity (text : Option Text) : Between 0 1 (opacity text) := by
  have one : Between 0 1 1.0 := by
    obtain ⟨real, one⟩ := hasValue_one
    exact ⟨real, by linarith, one.le⟩
  unfold opacity
  split
  · exact one
  · exact one
  · exact between_unitClamp _

theorem alpha_toRgba (c : Hsl) : (Hsl.toRgba c).alpha = c.alpha := by
  unfold Hsl.toRgba
  dsimp only
  split_ifs <;> rfl

/-- A number of two hexadecimal digits, or of one behind a sign. -/
theorem between_hexAlpha {t : Text} {x : Float} (length : t.length ≤ 2)
    (h : (Decimal.int? 16 t).map Float.ofInt = some x) : Between (-1) 1 (x / 255.0) := by
  obtain ⟨n, hn, rfl⟩ := Option.map_eq_some_iff.1 h
  obtain ⟨size, below, sign⟩ := Decimal.exists_size_of_int? (by omega) hn
  have most : 16 ^ t.length ≤ 16 ^ 2 := Nat.pow_le_pow_right (by omega) length
  have small : |n| ≤ 255 := abs_le.2 (by omega)
  obtain ⟨real, whole⟩ := hasValue_ofInt (small.trans_lt (by norm_num))
  obtain ⟨realTop, top⟩ := hasValue_top
  have size : |(n : ℚ)| ≤ 255 := by exact_mod_cast small
  have share : |(n : ℚ) / 255| ≤ 1 := by
    rw [abs_div, abs_of_pos (by norm_num : (0 : ℚ) < 255)]
    exact (div_le_one (by norm_num)).2 size
  have quotient := approximates_div real realTop (by rw [top]; norm_num)
    (by rw [whole, top]; exact share.trans (by norm_num))
  rw [whole, top] at quotient
  exact quotient.between onGrid_one.neg onGrid_one (abs_le.1 share).1 (abs_le.1 share).2

theorem between_full : Between (-1) 1 1.0 := by
  obtain ⟨real, one⟩ := hasValue_one
  exact ⟨real, by linarith, one.le⟩

theorem between_alpha_ofShortHex? {digits : Text} {c : Rgba} (h : ofShortHex? digits = some c) :
    Between (-1) 1 c.alpha := by
  obtain ⟨channels, hc, h⟩ := Option.bind_eq_some_iff.1 h
  split at h
  · cases h
    exact between_full
  · rename_i r g b a
    cases h
    obtain ⟨d, -, read⟩ := exists_of_mem_mapM hc a (by simp)
    exact between_hexAlpha (t := [d, d]) le_rfl read
  · cases h

theorem between_alpha_ofLongHex? {digits : Text} {c : Rgba} (h : ofLongHex? digits = some c) :
    Between (-1) 1 c.alpha := by
  obtain ⟨r, -, h⟩ := Option.bind_eq_some_iff.1 h
  obtain ⟨g, -, h⟩ := Option.bind_eq_some_iff.1 h
  obtain ⟨b, -, h⟩ := Option.bind_eq_some_iff.1 h
  split at h
  · obtain ⟨a, ha, h⟩ := Option.bind_eq_some_iff.1 h
    cases h
    exact between_hexAlpha (List.length_take_le _ _) ha
  · cases h
    exact between_full

theorem between_alpha_ofHex (literal : Text) : Between (-1) 1 (ofHex literal).alpha := by
  unfold ofHex
  dsimp only
  split_ifs
  · cases h : ofShortHex? ((Text.trim literal).dropWhile (· == '#')) with
    | none => exact between_full
    | some c => exact between_alpha_ofShortHex? h
  · cases h : ofLongHex? ((Text.trim literal).dropWhile (· == '#')) with
    | none => exact between_full
    | some c => exact between_alpha_ofLongHex? h
  · exact between_full

theorem between_alpha {literal : Text} {c : Rgba} (h : ofLiteral literal = .ok c) :
    Between (-1) 1 c.alpha := by
  have wide {x : Float} (hx : Between 0 1 x) : Between (-1) 1 x :=
    ⟨hx.isReal, by linarith [hx.lower], hx.upper⟩
  unfold ofLiteral at h
  dsimp only at h
  split_ifs at h with sharp rgb hsl
  · cases h
    exact between_alpha_ofHex _
  · obtain ⟨r, -, h⟩ := exists_of_bind_eq_ok h
    obtain ⟨g, -, h⟩ := exists_of_bind_eq_ok h
    obtain ⟨b, -, h⟩ := exists_of_bind_eq_ok h
    cases h
    exact wide (between_opacity _)
  · cases h
    rw [ofHslCall, alpha_toRgba]
    exact wide (between_opacity _)
  · cases h
    exact between_full

theorem between_alpha_dark {c d : Rgba} {m : DarkMethod} (h : c.dark m = .ok d) :
    Between 0 1 d.alpha := by
  cases m with
  | flip =>
      obtain ⟨hsl, -, h⟩ := exists_of_bind_eq_ok h
      cases h
      exact between_unitClamp _
  | invert =>
      cases h
      exact between_unitClamp _
  | tone =>
      obtain ⟨hsl, -, h⟩ := exists_of_bind_eq_ok h
      cases h
      exact between_unitClamp _

/-! ### The text as a literal -/

theorem tokens_of_whole {r : Text.Recognizer} {t : Text} (hne : t ≠ [])
    (whole : r none t = some t.length) : Text.tokens r t = [t] := by
  have pieces := Text.piecesFrom_token (t := []) hne (by rwa [List.append_nil])
  rw [List.append_nil] at pieces
  rw [Text.tokens, Text.pieces, pieces]
  rfl

theorem token_text_of_isOpaque {c : Rgba} (h : c.alpha == 1.0) :
    token none c.text = some c.text.length := by
  obtain ⟨r, r', red, -, ⟨hexR, hexR'⟩, -⟩ := exists_hexDigits (level_le c.red)
  obtain ⟨g, g', green, -, ⟨hexG, hexG'⟩, -⟩ := exists_hexDigits (level_le c.green)
  obtain ⟨b, b', blue, -, ⟨hexB, hexB'⟩, -⟩ := exists_hexDigits (level_le c.blue)
  rw [text_of_isOpaque h, red, green, blue]
  simp [token, hexLength?, hexR, hexR', hexG, hexG', hexB, hexB', Text.nextIs]

theorem callLength?_call {inner : Text} (hne : inner ≠ []) (flat : '(' ∉ inner ∧ ')' ∉ inner) :
    callLength? (call "rgba".toList inner) = some (call "rgba".toList inner).length := by
  have found : callHeads.find? (·.isPrefixOf (call "rgba".toList inner)) =
      some "rgba(".toList := by
    simp [callHeads, call]
  have head : (call "rgba".toList inner).drop "rgba(".toList.length = inner ++ [')'] := rfl
  have run : ∀ c ∈ inner, (c != '(' && c != ')') = true := by
    intro c hc
    have left : c ≠ '(' := fun same => flat.1 (same ▸ hc)
    have right : c ≠ ')' := fun same => flat.2 (same ▸ hc)
    simp [left, right]
  have arguments : (inner ++ [')']).takeWhile (fun c => c != '(' && c != ')') = inner :=
    Text.takeWhile_run run rfl
  have close : (call "rgba".toList inner).drop ("rgba(".toList.length + inner.length) = [')'] := by
    rw [← List.drop_drop, head, List.drop_left]
  rw [callLength?, found, Option.bind_eq_bind, Option.bind_some, head, arguments]
  simp only [close]
  simp [hne, Text.nextIs, call]
  omega

theorem flat_argumentsText (c : Rgba) : '(' ∉ c.argumentsText ∧ ')' ∉ c.argumentsText := by
  have number {t : Text} (ht : ∀ d ∈ t, isNumberChar d) : '(' ∉ t ∧ ')' ∉ t :=
    ⟨fun mem => absurd (ht _ mem) (by decide), fun mem => absurd (ht _ mem) (by decide)⟩
  have channel (n : Nat) := number (isNumberChar_digits (n := n))
  have alpha : '(' ∉ trimmed 4 c.alpha ∧ ')' ∉ trimmed 4 c.alpha := number isNumberChar_trimmed
  simp [argumentsText, channel, alpha]

theorem literals_text (c : Rgba) : literals c.text = [c.text] := by
  by_cases full : c.alpha == 1.0
  · exact tokens_of_whole (by simp [text_of_isOpaque full]) (token_text_of_isOpaque full)
  · rw [text_of_not_isOpaque full]
    exact tokens_of_whole (by simp [call])
      (callLength?_call (by simp [argumentsText]) (flat_argumentsText c))

/-- The text of a color that was read, or of its counterpart in a dark theme, is one literal. It is
read as a color with that text if the opacity is not printed as 1 without being full, and in any
case as a color that has a fixed text. -/
theorem isFixed_iff_of_ofLiteral {literal : Text} {c d : Rgba} (h : ofLiteral literal = .ok c)
    (hd : d = c ∨ ∃ m, c.dark m = .ok d) :
    literals d.text = [d.text] ∧
      (¬ d.alpha < 0.0 → (d.IsFixed ↔ d.alpha == 1.0 ∨ d.alpha < 0.99995)) ∧
      ∃ e, ofLiteral d.text = .ok e ∧ e.IsFixed := by
  have range : Between (-1) 1 d.alpha := by
    rcases hd with rfl | ⟨m, hm⟩
    · exact between_alpha h
    · have unit := between_alpha_dark hm
      exact ⟨unit.isReal, by linarith [unit.lower], unit.upper⟩
  refine ⟨literals_text d, fun least => ?_, exists_isFixed_of_text range⟩
  rw [lt_iff range.isReal hasValue_zero.isReal, hasValue_zero.value_eq, not_lt] at least
  exact isFixed_iff ⟨range.isReal, least, range.upper⟩

theorem isFixed_iff_of_ofLiteral_halfOpaque : ∃ c d, ofLiteral "#3b82f680".toList = .ok c ∧
    c.dark .flip = .ok d ∧ d.text = "rgba(9, 80, 196, 0.502)".toList ∧
      literals d.text = [d.text] ∧ d.IsFixed := by
  have read : ((ofLiteral "#3b82f680".toList).bind (dark .flip)).map (fun d =>
      (d.text, decide (d.alpha < 0.0), decide (d.alpha < 0.99995))) =
        .ok ("rgba(9, 80, 196, 0.502)".toList, false, true) := by decide +kernel
  cases hc : ofLiteral "#3b82f680".toList with
  | error fault =>
      rw [hc] at read
      cases read
  | ok c =>
      cases hd : c.dark .flip with
      | error fault =>
          rw [hc, Except.bind, hd] at read
          cases read
      | ok d =>
          rw [hc, Except.bind, hd, Except.map, Except.ok.injEq, Prod.mk.injEq, Prod.mk.injEq,
            decide_eq_false_iff_not, decide_eq_true_eq] at read
          obtain ⟨text, least, less⟩ := read
          obtain ⟨alone, fixed, -⟩ := isFixed_iff_of_ofLiteral hc (.inr ⟨.flip, hd⟩)
          exact ⟨c, d, rfl, hd, text, alone, (fixed least).2 (.inr less)⟩

/-- An opacity below 1 that is printed as 1. -/
theorem not_isFixed_nearlyOpaque : ∃ c d, ofLiteral "rgba(0, 0, 0, 0.99999)".toList = .ok c ∧
    c.text = "rgba(0, 0, 0, 1)".toList ∧ ofLiteral c.text = .ok d ∧ d.text = "#000000".toList ∧
      ¬ c.IsFixed := by
  have first : (ofLiteral "rgba(0, 0, 0, 0.99999)".toList).map text =
      .ok "rgba(0, 0, 0, 1)".toList := by decide +kernel
  have second : (ofLiteral "rgba(0, 0, 0, 1)".toList).map text = .ok "#000000".toList := by
    decide +kernel
  cases hc : ofLiteral "rgba(0, 0, 0, 0.99999)".toList with
  | error fault =>
      rw [hc] at first
      cases first
  | ok c =>
      rw [hc, Except.map, Except.ok.injEq] at first
      cases hd : ofLiteral "rgba(0, 0, 0, 1)".toList with
      | error fault =>
          rw [hd] at second
          cases second
      | ok d =>
          rw [hd, Except.map, Except.ok.injEq] at second
          rw [← first] at hd
          refine ⟨c, d, rfl, first, hd, second, ?_⟩
          rintro ⟨e, again, fixed⟩
          obtain rfl : d = e := Except.ok.inj (hd.symm.trans again)
          rw [second, first] at fixed
          revert fixed
          decide

end Rgba

end DesignTokens
