import DesignTokens.Proofs.ColorRanges
import DesignTokens.Proofs.LiteralShapes

/-!
Colors of literals. Reading a literal fails only where a percentage of a red, green or blue channel
is too large to be scaled; every color that is read has channels in range.
-/
namespace DesignTokens

open Number

namespace Decimal

theorem exists_scanSign (t : Text) : ∃ negative size, scanSign t = (negative, size) ∧
    size.length ≤ t.length ∧ (negative → '-' ∈ t) := by
  unfold scanSign
  split
  · exact ⟨_, _, rfl, by simp, by simp⟩
  · exact ⟨_, _, rfl, by simp, by simp⟩
  · exact ⟨_, _, rfl, le_rfl, by simp⟩

theorem length_ungroup? {isDigit : Char → Bool} {before : Option Char} {t u : Text}
    (h : ungroup? isDigit before t = some u) : u.length ≤ t.length := by
  induction t generalizing before u with
  | nil =>
      cases h
      exact le_rfl
  | cons c rest ih =>
      rw [ungroup?] at h
      split_ifs at h with underscore between
      · exact (ih h).trans (by simp)
      · obtain ⟨u, hu, rfl⟩ := Option.map_eq_some_iff.1 h
        exact Nat.succ_le_succ (ih hu)

theorem foldlM_digit_lt {base start value : Nat} {t : Text} {k : Nat} (hs : start < base ^ k)
    (h : t.foldlM (fun n c => (digitInBase? base c).map (base * n + ·)) start = some value) :
    value < base ^ (k + t.length) := by
  induction t generalizing start k with
  | nil =>
      cases h
      exact hs
  | cons c rest ih =>
      rw [List.foldlM_cons] at h
      obtain ⟨next, hn, h⟩ := Option.bind_eq_some_iff.1 h
      obtain ⟨digit, hd, rfl⟩ := Option.map_eq_some_iff.1 hn
      have small : digit < base := by
        have := (Option.filter_eq_some_iff.1 hd).2
        simpa using this
      have step : base * start + digit < base ^ (k + 1) := by
        calc base * start + digit < base * (start + 1) := by
              rw [Nat.mul_succ]
              omega
          _ ≤ base * base ^ k := Nat.mul_le_mul_left _ hs
          _ = base ^ (k + 1) := by rw [pow_succ, Nat.mul_comm]
      have := ih step h
      rwa [Nat.add_assoc, Nat.add_comm 1, ← List.length_cons (a := c)] at this

theorem trimMargin_sublist (t : Text) : (trimMargin t).Sublist t := by
  have inner := ((t.dropWhile isMargin).reverse.dropWhile_sublist isMargin).reverse
  rw [List.reverse_reverse] at inner
  exact inner.trans (t.dropWhile_sublist isMargin)

/-- A whole number has no more digits than its text has characters, and a sign only if that has a
minus. -/
theorem exists_size_of_int? {base : Nat} {t : Text} {n : Int} (hb : 0 < base)
    (h : int? base t = some n) : ∃ size : Nat, size < base ^ t.length ∧
      (n = size ∨ n = -(size : Int) ∧ '-' ∈ t) := by
  have inner := trimMargin_sublist t
  obtain ⟨negative, size, hs, shorter, minus⟩ := exists_scanSign (trimMargin t)
  rw [int?, hs] at h
  dsimp only at h
  split at h
  · rename_i c rest hu
    obtain ⟨value, hv, rfl⟩ := Option.map_eq_some_iff.1 h
    have below := foldlM_digit_lt (k := 0) (by simp) hv
    have length := (length_ungroup? hu).trans (shorter.trans inner.length_le)
    have most : base ^ (0 + (c :: rest).length) ≤ base ^ t.length :=
      Nat.pow_le_pow_right hb (by omega)
    refine ⟨value, below.trans_le most, ?_⟩
    cases negative with
    | true => exact .inr ⟨rfl, inner.subset (minus rfl)⟩
    | false => exact .inl rfl
  · cases h

end Decimal

namespace Text

theorem exists_trim_cons {c : Char} (h : isBlank c = false) (t : Text) :
    ∃ u, trim (c :: t) = c :: u := by
  have left : trimLeft (c :: t) = c :: t := by simp [trimLeft, h]
  have start : trim (c :: t) <+: c :: t := by
    rw [trim, left, ← List.reverse_suffix, trimRight, List.reverse_reverse]
    exact List.dropWhile_suffix isBlank
  cases hu : trim (c :: t) with
  | nil =>
      rw [trim, left, trimRight, List.reverse_eq_nil_iff, List.dropWhile_eq_nil_iff] at hu
      exact absurd (hu c (by simp)) (by simp [h])
  | cons d u =>
      rw [hu] at start
      exact ⟨u, by rw [(List.cons_prefix_cons.1 start).1]⟩

theorem exists_lower_cons {c : Char} (hc : c.toNat < 128) (t : Text) :
    ∃ u, lower (c :: t) = c.toLower :: u := by
  have sigma : c ≠ 'Σ' := by
    rintro rfl
    exact absurd hc (by decide)
  have dotted : c ≠ 'İ' := by
    rintro rfl
    exact absurd hc (by decide)
  unfold lower
  split_ifs
  · exact ⟨t.map Char.toLower, rfl⟩
  · exact ⟨_, by rw [lowerFrom, if_neg sigma, if_neg dotted, lowerChar, if_pos hc]; rfl⟩

theorem notMem_lower {t : Text} {c : Char} (ascii : ∀ d ∈ t, d.toNat < 128)
    (h : ∀ d ∈ t, d.toLower ≠ c) : c ∉ lower t := by
  rw [lower, if_pos (by simpa using ascii)]
  intro mem
  obtain ⟨d, hd, same⟩ := List.mem_map.1 mem
  exact h d hd same

end Text

namespace Rgba

open Color

theorem inRange_black : black.InRange := by
  have zero := between_zero (k := 255)
  exact ⟨zero, zero, zero⟩

theorem between_int {t : Text} {x : Float} (hm : '-' ∉ t) (length : t.length ≤ 2)
    (h : (Decimal.int? 16 t).map Float.ofInt = some x) : Between 0 255 x := by
  obtain ⟨n, hn, rfl⟩ := Option.map_eq_some_iff.1 h
  obtain ⟨size, below, rfl | ⟨-, minus⟩⟩ := Decimal.exists_size_of_int? (by omega) hn
  · have most : 16 ^ t.length ≤ 16 ^ 2 := Nat.pow_le_pow_right (by omega) length
    exact between_level ⟨by omega, by omega⟩
  · exact absurd minus hm

theorem inRange_ofShortHex? {digits : Text} {c : Rgba} (hm : '-' ∉ digits)
    (h : ofShortHex? digits = some c) : c.InRange := by
  obtain ⟨channels, hc, h⟩ := Option.bind_eq_some_iff.1 h
  have range : ∀ x ∈ channels, Between 0 255 x := by
    intro x hx
    obtain ⟨d, hd, hx⟩ := exists_of_mem_mapM hc x hx
    exact between_int (fun mem => hm (by simpa [← (List.mem_pair.1 mem).elim id id] using hd))
      le_rfl hx
  split at h
  · cases h
    exact ⟨range _ (by simp), range _ (by simp), range _ (by simp)⟩
  · cases h
    exact ⟨range _ (by simp), range _ (by simp), range _ (by simp)⟩
  · cases h

theorem inRange_ofLongHex? {digits : Text} {c : Rgba} (hm : '-' ∉ digits)
    (h : ofLongHex? digits = some c) : c.InRange := by
  have range {i : Nat} {x : Float}
      (hx : (Decimal.int? 16 ((digits.drop i).take 2)).map Float.ofInt = some x) :
      Between 0 255 x := by
    refine between_int (fun mem => hm ?_) (List.length_take_le _ _) hx
    exact List.mem_of_mem_drop (List.mem_of_mem_take mem)
  obtain ⟨r, hr, h⟩ := Option.bind_eq_some_iff.1 h
  obtain ⟨g, hg, h⟩ := Option.bind_eq_some_iff.1 h
  obtain ⟨b, hb, h⟩ := Option.bind_eq_some_iff.1 h
  split at h
  · obtain ⟨a, ha, h⟩ := Option.bind_eq_some_iff.1 h
    cases h
    exact ⟨range hr, range hg, range hb⟩
  · cases h
    exact ⟨range hr, range hg, range hb⟩

theorem inRange_ofHex {literal : Text} (hm : '-' ∉ literal) : (ofHex literal).InRange := by
  have digits : '-' ∉ (Text.trim literal).dropWhile (· == '#') := fun mem =>
    hm ((Text.trim_isInfix literal).subset ((List.dropWhile_suffix _).subset mem))
  unfold ofHex
  dsimp only
  generalize (Text.trim literal).dropWhile (· == '#') = d at digits
  split_ifs
  · cases h : ofShortHex? d with
    | none => exact inRange_black
    | some c => exact inRange_ofShortHex? digits h
  · cases h : ofLongHex? d with
    | none => exact inRange_black
    | some c => exact inRange_ofLongHex? digits h
  · exact inRange_black

theorem between_parseChannel {t : Text} {x : Float} (h : parseChannel t = .ok x) :
    Between 0 255 x := by
  unfold parseChannel at h
  dsimp only at h
  split at h
  · cases hn : nearest? (Decimal.floatAtStart 0.0 t * 2.55) with
    | error fault =>
        rw [hn] at h
        cases h
    | ok n =>
        rw [hn] at h
        cases h
        exact between_channelClamp _
  · cases h
    exact between_channelClamp _

theorem inRange_ofRgbCall {literal : Text} {c : Rgba} (h : ofRgbCall literal = .ok c) :
    c.InRange := by
  obtain ⟨r, hr, h⟩ := exists_of_bind_eq_ok h
  obtain ⟨g, hg, h⟩ := exists_of_bind_eq_ok h
  obtain ⟨b, hb, h⟩ := exists_of_bind_eq_ok h
  cases h
  exact ⟨between_parseChannel hr, between_parseChannel hg, between_parseChannel hb⟩

theorem isOk_parseChannel_iff {t : Text} :
    (∃ x, parseChannel t = .ok x) ↔
      (endsWith '%' t → IsReal (Decimal.floatAtStart 0.0 t * 2.55)) := by
  unfold parseChannel
  dsimp only
  split_ifs with percentage
  · rw [nearest?, ← wholeFault?_eq_none_iff]
    cases wholeFault? (Decimal.floatAtStart 0.0 t * 2.55) with
    | none => simp [Except.map, percentage]
    | some fault => simp [Except.map, percentage]
  · simp [percentage]

theorem inRange_of_ok {literal : Text} {c : Rgba}
    (hs : ['#'] <+: Text.lower (Text.trim literal) → '-' ∉ Text.lower (Text.trim literal))
    (h : ofLiteral literal = .ok c) : c.InRange := by
  unfold ofLiteral at h
  dsimp only at h
  split_ifs at h with sharp rgb hsl
  · cases h
    exact inRange_ofHex (hs (List.isPrefixOf_iff_prefix.1 sharp))
  · exact inRange_ofRgbCall h
  · cases h
    exact Hsl.inRange_toRgba _
  · cases h
    exact inRange_black

end Rgba

namespace Color

theorem lower_of_isHexDigit {c : Char} (h : isHexDigit c) : c.toNat < 128 ∧ c.toLower ≠ '-' := by
  have ascii : c.toNat < 128 := by
    simp only [isHexDigit, Bool.or_eq_true, Bool.and_eq_true, decide_eq_true_eq, Char.le_def,
      UInt32.le_iff_toNat_le] at h
    have : c.toNat = c.val.toNat := rfl
    have : '9'.val.toNat = 57 := rfl
    have : 'f'.val.toNat = 102 := rfl
    have : 'F'.val.toNat = 70 := rfl
    omega
  have table : ∀ n < 128, isHexDigit (Char.ofNat n) → (Char.ofNat n).toLower ≠ '-' := by decide
  have := table c.toNat ascii
  rw [Char.ofNat_toNat] at this
  exact ⟨ascii, this h⟩

/-- A percentage of a channel that is too large to be scaled. -/
def IsTooLarge (argument : Text) : Prop :=
  endsWith '%' argument ∧ ¬ IsReal (Decimal.floatAtStart 0.0 argument * 2.55)

/-- A call of `rgb` or `rgba` with a percentage that is too large among the first three arguments.
-/
def Overflows (literal : Text) : Prop :=
  let t := Text.lower (Text.trim literal)
  "rgb".toList <+: t ∧ ∃ i < 3, IsTooLarge (argument (arguments t) i)

end Color

namespace Rgba

open Color

theorem isOk_ofRgbCall_iff {literal : Text} : (∃ c, ofRgbCall literal = .ok c) ↔
    ∀ i < 3, ¬ IsTooLarge (argument (arguments literal) i) := by
  have channel (i : Nat) : (∃ x, parseChannel (argument (arguments literal) i) = .ok x) ↔
      ¬ IsTooLarge (argument (arguments literal) i) := by
    rw [isOk_parseChannel_iff, IsTooLarge, not_and, not_not]
  constructor
  · intro ⟨c, h⟩ i hi
    obtain ⟨r, hr, h⟩ := exists_of_bind_eq_ok h
    obtain ⟨g, hg, h⟩ := exists_of_bind_eq_ok h
    obtain ⟨b, hb, h⟩ := exists_of_bind_eq_ok h
    apply (channel i).1
    match i, hi with
    | 0, _ => exact ⟨r, hr⟩
    | 1, _ => exact ⟨g, hg⟩
    | 2, _ => exact ⟨b, hb⟩
  · intro h
    obtain ⟨r, hr⟩ := (channel 0).2 (h 0 (by omega))
    obtain ⟨g, hg⟩ := (channel 1).2 (h 1 (by omega))
    obtain ⟨b, hb⟩ := (channel 2).2 (h 2 (by omega))
    exact ⟨_, bind_eq_ok hr (bind_eq_ok hg (bind_eq_ok hb rfl))⟩

theorem isOk_ofLiteral_iff {literal : Text} :
    (∃ c, ofLiteral literal = .ok c) ↔ ¬ Overflows literal := by
  unfold ofLiteral Overflows
  dsimp only
  split_ifs with sharp rgb hsl
  · refine iff_of_true ⟨_, rfl⟩ fun overflow => ?_
    obtain ⟨rest, hr⟩ := List.isPrefixOf_iff_prefix.1 sharp
    have both := overflow.1
    rw [← hr] at both
    exact absurd (List.cons_prefix_cons.1 both).1 (by decide)
  · rw [isOk_ofRgbCall_iff]
    constructor
    · intro fits overflow
      obtain ⟨-, i, hi, large⟩ := overflow
      exact fits i hi large
    · exact fun h i hi large => h ⟨List.isPrefixOf_iff_prefix.1 rgb, i, hi, large⟩
  · exact iff_of_true ⟨_, rfl⟩ fun overflow => rgb (List.isPrefixOf_iff_prefix.2 overflow.1)
  · exact iff_of_true ⟨_, rfl⟩ fun overflow => rgb (List.isPrefixOf_iff_prefix.2 overflow.1)

theorem inRange_of_mem {v literal : Text} {c : Rgba} (hl : literal ∈ literals v)
    (h : ofLiteral literal = .ok c) : c.InRange := by
  apply inRange_of_ok _ h
  intro sharp
  rcases eq_of_mem_literals hl with ⟨digits, rfl, hex⟩ | ⟨head, hh, args, -, rfl⟩
  · have plain : ∀ d ∈ Text.trim ('#' :: digits), d = '#' ∨ isHexDigit d := fun d hd =>
      (List.mem_cons.1 ((Text.trim_isInfix _).subset hd)).imp id (hex d)
    apply Text.notMem_lower
    · intro d hd
      obtain rfl | hex := plain d hd
      · decide
      · exact (lower_of_isHexDigit hex).1
    · intro d hd
      obtain rfl | hex := plain d hd
      · decide
      · exact (lower_of_isHexDigit hex).2
  · exfalso
    have letters : ∀ head ∈ callHeads, ∃ c rest, head = c :: rest ∧ Text.isBlank c = false ∧
        c.toNat < 128 ∧ c.toLower ≠ '#' := by
      simp [callHeads]
      decide
    obtain ⟨c, rest, rfl, solid, ascii, other⟩ := letters head hh
    rw [List.cons_append, List.cons_append] at sharp
    obtain ⟨u, hu⟩ := Text.exists_trim_cons solid (rest ++ args ++ [')'])
    obtain ⟨l, hlow⟩ := Text.exists_lower_cons ascii u
    rw [hu, hlow] at sharp
    exact other (List.cons_prefix_cons.1 sharp).1.symm

end Rgba
end DesignTokens
