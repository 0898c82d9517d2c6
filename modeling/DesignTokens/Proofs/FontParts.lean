import DesignTokens.Font.Shorthand
import DesignTokens.Proofs.TextCuts

/-!
The parts of a `font` value stand in it: a line height between blanks and the rest, and the family
at the end.
-/
namespace DesignTokens.FontShorthand

open Text

/-- A line height with the text around it: blanks, a `/` and blanks before it, and a text after it
that does not go on with it. -/
structure CutsLineHeight (t blanks blanks' height tail : Text) : Prop where
  text : t = blanks ++ '/' :: (blanks' ++ (height ++ tail))
  blank : ∀ c ∈ blanks, isBlank c
  blank' : ∀ c ∈ blanks', isBlank c
  ne_nil : height ≠ []
  parts : ∀ c ∈ height, isLineHeightPart c
  ends : nextIs isLineHeightPart tail = false

theorem exists_of_lineHeight? {t height tail : Text} (h : lineHeight? t = some (height, tail)) :
    ∃ blanks blanks', CutsLineHeight t blanks blanks' height tail := by
  unfold lineHeight? at h
  split at h
  · rename_i rest hrest
    have front := List.takeWhile_append_dropWhile (p := isBlank) (l := t)
    have back := List.takeWhile_append_dropWhile (p := isBlank) (l := rest)
    have value := List.takeWhile_append_dropWhile (p := isLineHeightPart) (l := trimLeft rest)
    simp only at h
    split at h
    · cases h
    · rename_i hne
      cases h
      refine ⟨t.takeWhile isBlank, rest.takeWhile isBlank, ?_, ?_, ?_, hne, ?_, ?_⟩
      · rw [value, trimLeft, back, ← hrest, trimLeft, front]
      · exact fun c hc => List.mem_takeWhile_imp hc
      · exact fun c hc => List.mem_takeWhile_imp hc
      · exact fun c hc => List.mem_takeWhile_imp hc
      · exact nextIs_dropWhile isLineHeightPart (trimLeft rest)
  · cases h

theorem suffix_of_lineHeight? {t height tail : Text} (h : lineHeight? t = some (height, tail)) :
    tail <:+ t := by
  obtain ⟨blanks, blanks', cuts⟩ := exists_of_lineHeight? h
  exact ⟨blanks ++ '/' :: (blanks' ++ height), by simp [cuts.text]⟩

theorem suffix_of_afterSize? {t rest : Text} (h : afterSize? t = some rest) : rest <:+ t := by
  induction t with
  | nil => cases h
  | cons c t ih =>
      rw [afterSize?] at h
      split at h
      · cases h
        exact List.drop_suffix _ _
      · exact (ih h).trans (List.suffix_cons c t)

theorem exists_of_family? {t family : Text} (h : family? t = some family) :
    ∃ tail, tail <:+ t ∧ family = trim tail ∧ family ≠ [] := by
  obtain ⟨rest, hrest, h⟩ := Option.bind_eq_some_iff.1 h
  have suffix := suffix_of_afterSize? hrest
  have ofTail {tail : Text} (h : (if (trim tail).isEmpty then none else some (trim tail)) =
      some family) : family = trim tail ∧ family ≠ [] := by
    split at h
    · cases h
    · rename_i hne
      cases h
      exact ⟨rfl, by simpa using hne⟩
  cases hl : lineHeight? rest with
  | none =>
      rw [hl] at h
      exact ⟨rest, suffix, ofTail h⟩
  | some part =>
      rw [hl] at h
      exact ⟨part.2, (suffix_of_lineHeight? hl).trans suffix, ofTail h⟩

theorem infix_of_family? {t family : Text} (h : family? t = some family) : family <:+: t := by
  obtain ⟨tail, htail, rfl, -⟩ := exists_of_family? h
  exact (trim_isInfix tail).trans htail.isInfix

end DesignTokens.FontShorthand
