import DesignTokens.Number.FixedPoint
import DesignTokens.Stylesheet.Declaration

/-!
Classes of characters and how they exclude each other. A table of ranges is small enough to test a
property of its characters one by one.
-/
namespace DesignTokens

namespace Text

theorem exists_range_of_inRanges {ranges : List (Nat × Nat)} {n : Nat} (h : inRanges ranges n) :
    ∃ range ∈ ranges, range.1 ≤ n ∧ n ≤ range.2 := by
  induction ranges with
  | nil => simp [inRanges] at h
  | cons range ranges ih =>
      simp only [inRanges, Bool.and_eq_true, Bool.or_eq_true, decide_eq_true_eq] at h
      obtain ⟨low, high | later⟩ := h
      · exact ⟨range, by simp, low, high⟩
      · obtain ⟨r, hr, bounds⟩ := ih later
        exact ⟨r, by simp [hr], bounds⟩

theorem forall_of_inRanges {ranges : List (Nat × Nat)} {p : Char → Bool}
    (h : ∀ range ∈ ranges, ∀ n ∈ List.range' range.1 (range.2 + 1 - range.1), p (Char.ofNat n))
    {c : Char} (hc : inRanges ranges c.toNat) : p c := by
  obtain ⟨range, hr, low, high⟩ := exists_range_of_inRanges hc
  have := h range hr c.toNat (by rw [List.mem_range'_1]; omega)
  rwa [Char.ofNat_toNat] at this

/-- What holds of each ascii character by its number. -/
theorem forall_of_lt_128 {p : Char → Bool} (h : (List.range 128).all fun n => p (Char.ofNat n))
    {c : Char} (hc : c.toNat < 128) : p c := by
  have entry := List.all_eq_true.1 h c.toNat (List.mem_range.2 hc)
  rwa [Char.ofNat_toNat] at entry

theorem lt_128_of_isAlphanum {c : Char} (h : c.isAlphanum) : c.toNat < 128 := by
  rcases Bool.or_eq_true_iff.1 h with letter | digit
  · rcases Bool.or_eq_true_iff.1 letter with upper | lower
    · have high : c.val ≤ 'Z'.val := (of_decide_eq_true upper).2
      exact Nat.lt_of_le_of_lt (UInt32.le_iff_toNat_le.1 high) (by decide)
    · have high : c.val ≤ 'z'.val := of_decide_eq_true (Bool.and_eq_true_iff.1 lower).2
      exact Nat.lt_of_le_of_lt (UInt32.le_iff_toNat_le.1 high) (by decide)
  · have high : c.val ≤ '9'.val := of_decide_eq_true (Bool.and_eq_true_iff.1 digit).2
    exact Nat.lt_of_le_of_lt (UInt32.le_iff_toNat_le.1 high) (by decide)

theorem lt_128_of_isDigit {c : Char} (h : c.isDigit) : c.toNat < 128 :=
  lt_128_of_isAlphanum (by rw [Char.isAlphanum, h, Bool.or_true])

/-- Whether one of the ranges has all numbers from `low` to `high`. -/
def inOneRange : List (Nat × Nat) → Nat → Nat → Bool
  | [], _, _ => false
  | range :: ranges, low, high =>
    decide (range.1 ≤ low) && (decide (high ≤ range.2) || inOneRange ranges low high)

theorem inRanges_of_inOneRange {ranges : List (Nat × Nat)} {low high n : Nat}
    (h : inOneRange ranges low high) (above : low ≤ n) (below : n ≤ high) : inRanges ranges n := by
  induction ranges with
  | nil => cases h
  | cons range ranges ih =>
      simp only [inOneRange, inRanges, Bool.and_eq_true, Bool.or_eq_true, decide_eq_true_eq] at h ⊢
      exact ⟨Nat.le_trans h.1 above, h.2.imp (Nat.le_trans below) ih⟩

theorem mem_of_mem_hexDigits {width n : Nat} :
    ∀ c ∈ hexDigits width n, c ∈ "0123456789abcdef".toList := by
  have digit : ∀ k < 16, Nat.digitChar k ∈ "0123456789abcdef".toList := by decide
  have number (n : Nat) : ∀ c ∈ Nat.toDigits 16 n, c ∈ "0123456789abcdef".toList := by
    induction n using Nat.strongRecOn with
    | _ n ih =>
        intro c hc
        rw [Nat.toDigits_eq_if (by decide)] at hc
        split at hc
        · rename_i small
          rw [List.mem_singleton.1 hc]
          exact digit n small
        · rcases List.mem_append.1 hc with front | last
          · exact ih (n / 16) (by omega) c front
          · rw [List.mem_singleton.1 last]
            exact digit _ (by omega)
  intro c hc
  rcases List.mem_append.1 hc with zero | hc
  · rw [List.eq_of_mem_replicate zero]
    decide
  · exact number n c hc

theorem exists_first_of_digitIn {firsts : List Nat} {n : Nat} (h : (digitIn firsts n).isSome) :
    ∃ first ∈ firsts, ∃ k < 10, n = first + k := by
  induction firsts with
  | nil => cases h
  | cons first firsts ih =>
      rw [digitIn] at h
      by_cases below : n < first
      · rw [if_pos below] at h
        cases h
      · by_cases inside : n < first + 10
        · exact ⟨first, by simp, n - first, by omega, by omega⟩
        · rw [if_neg below, if_neg inside] at h
          obtain ⟨z, hz, rest⟩ := ih h
          exact ⟨z, by simp [hz], rest⟩

theorem isDigit_of_ascii {c : Char} (h : c.isDigit) : isDigit c := by
  rw [isDigit, digit?, if_pos (lt_128_of_isDigit h), if_pos h]
  rfl

/-- Digits of any script are characters of words. -/
theorem isWord_of_isDigit {c : Char} (h : isDigit c) : isWord c := by
  rw [isDigit, digit?] at h
  by_cases ascii : c.toNat < 128
  · by_cases digit : c.isDigit
    · simp [isWord, ascii, Char.isAlphanum, digit]
    · simp [ascii, digit] at h
  · rw [if_neg ascii] at h
    obtain ⟨first, hz, k, hk, hc⟩ := exists_first_of_digitIn h
    have table : digitZeros.all fun first => inOneRange wordRanges first (first + 9) := by
      decide +kernel
    have word := List.all_eq_true.1 table first hz
    rw [isWord, if_neg ascii, hc]
    exact inRanges_of_inOneRange word (by omega) (by omega)

end Text

theorem Number.isDigit_of_mem_digits {n : Nat} : ∀ c ∈ digits n, c.isDigit :=
  fun _ hc => Nat.isDigit_of_mem_toDigits (by decide) (by decide) hc

namespace Block

theorem not_isNameChar_of_isBlank {c : Char} (h : Text.isBlank c) : isNameChar c = false := by
  have := Text.forall_of_inRanges (p := fun c => !isNameChar c) (by decide +kernel) h
  simpa using this

theorem not_isBlank_of_isNameChar {c : Char} (h : isNameChar c) : Text.isBlank c = false := by
  cases blank : Text.isBlank c with
  | false => rfl
  | true => simp [not_isNameChar_of_isBlank blank] at h

end Block

end DesignTokens
