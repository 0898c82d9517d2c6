import DesignTokens.Proofs.FontParts
import DesignTokens.Proofs.LetterCases
import DesignTokens.Proofs.NormalForms
import DesignTokens.Proofs.ReferencedSheets
import DesignTokens.Proofs.ReferencedValues
import DesignTokens.Reference.Font

/-!
Sizes, line heights and families of a `font` value. Literals of typography are found in any letter
case, so a literal that could be mistaken for a part of a reference must be ruled out in any letter
case. A size starts after a blank, which no reference has, and a family ends the value.
-/
namespace DesignTokens

open Text

/-- A literal that has no opening in any letter case and does not start like a name. -/
structure Unmistakable (literal : Text) : Prop where
  ne_nil : literal ≠ []
  unopened : ¬ containsNoCase ['v', 'a', 'r'] literal
  undashed : ¬ isPrefixNoCase ['-', '-'] literal

variable {names : List Text} {literal t : Text}

/-- No opening starts in an occurrence of a literal if no word goes on where it ends. -/
theorem closedFor_of_noCase (hp : isPrefixNoCase literal t)
    (unopened : ¬ containsNoCase ['v', 'a', 'r'] literal)
    (ends : ∀ c, (t.take literal.length).getLast? = some c → isWord c →
      nextIs isWord (t.drop literal.length) = false) : ClosedFor literal.length t := by
  intro i hi ⟨rest, hrest⟩
  have cut (k : Nat) : t.take (i + k) = t.take i ++ (opening ++ rest).take k ∧
      t.drop (i + k) = (opening ++ rest).drop k := by
    rw [hrest, List.drop_drop, ← List.take_add]
    exact ⟨rfl, rfl⟩
  by_cases long : i + 3 ≤ literal.length
  · have start : isPrefixNoCase ['v', 'a', 'r'] (t.drop i) :=
      isPrefixNoCase_of_start (hrest ▸ ⟨'(' :: rest, rfl⟩)
    have inside := isPrefixNoCase_of_length_le start (isPrefixNoCase_drop hp i)
      (by simp; omega)
    exact unopened (containsNoCase_of_drop inside)
  · obtain h | h : literal.length = i + 1 ∨ literal.length = i + 2 := by omega
    · rw [h, (cut 1).1, (cut 1).2] at ends
      exact absurd (ends 'v' (by simp [opening]) (by decide)) (by simp [opening, nextIs]; decide)
    · rw [h, (cut 2).1, (cut 2).2] at ends
      exact absurd (ends 'a' (by simp [opening]) (by decide)) (by simp [opening, nextIs]; decide)

namespace Unmistakable

theorem closedFor (h : Unmistakable literal) (hp : isPrefixNoCase literal t)
    (alone : nextIs joinsPrevious (t.drop literal.length) = false) :
    ClosedFor literal.length t := by
  refine closedFor_of_noCase hp h.unopened fun _ _ _ => ?_
  cases hrest : t.drop literal.length with
  | nil => rfl
  | cons c rest =>
      rw [hrest] at alone
      simp only [nextIs, joinsPrevious, Length.joinsNext, Bool.or_eq_false_iff] at alone
      exact alone.1.1.1

theorem plain (h : Unmistakable literal) : ¬ opening <:+: literal := by
  rintro ⟨front, back, rfl⟩
  refine h.unopened (containsNoCase_of_drop (i := front.length) (isPrefixNoCase_of_start ?_))
  simp [opening]

theorem spares (hn : ∀ name ∈ names, TokenName.Valid name) (h : Unmistakable literal) :
    Spares names (loneToken .anyCase literal) := by
  refine spares_loneToken hn h.ne_nil (fun t hp alone => h.closedFor hp alone) ?_
  intro t hp
  by_contra long
  have dashes : isPrefixNoCase ['-', '-'] ('-' :: '-' :: t) := isPrefixNoCase_of_start (by simp)
  exact h.undashed (isPrefixNoCase_of_length_le dashes hp (not_lt.1 long))

end Unmistakable

namespace FontShorthand

theorem eq_of_cutLast? {part front rest : Text} (h : cutLast? part t = some (front, rest)) :
    t = front ++ part ++ rest := by
  induction t generalizing front with
  | nil =>
      rw [cutLast?] at h
      split at h
      · rename_i hne
        cases h
        simpa using hne
      · cases h
  | cons c t ih =>
      rw [cutLast?] at h
      split at h
      · rename_i head tail later
        cases h
        rw [ih later]
        rfl
      · split at h
        · rename_i hp
          cases h
          exact (List.prefix_iff_eq_append.1 (List.isPrefixOf_iff_prefix.1 hp)).symm
        · cases h

theorem exists_of_replaceInnerSize (lineHeights : TokenMap) (literal name t : Text) :
    replaceInnerSize lineHeights literal name t = t ∨
      ∃ a c rest tail, isBlank c ∧ t = a ++ c :: rest ∧ afterLiteral? literal rest = some tail ∧
        replaceInnerSize lineHeights literal name t =
          a ++ c :: sizeText lineHeights name tail := by
  induction t with
  | nil => exact .inl rfl
  | cons c rest ih =>
      rw [replaceInnerSize]
      split
      · rename_i tail h
        obtain ⟨blank, h⟩ := Option.ite_none_right_eq_some.1 h
        exact .inr ⟨[], c, rest, tail, blank, rfl, h, rfl⟩
      · rcases ih with same | ⟨a, d, rest, tail, blank, rfl, h, new⟩
        · exact .inl (by rw [same])
        · exact .inr ⟨c :: a, d, rest, tail, blank, rfl, h, by rw [new]; rfl⟩

theorem eq_of_afterLiteral? {tail : Text} (hu : Unmistakable literal)
    (h : afterLiteral? literal t = some tail) :
    tail = t.drop literal.length ∧ ClosedFor literal.length t := by
  rw [afterLiteral?] at h
  split at h
  · rename_i starts
    simp only [Bool.and_eq_true, Bool.not_eq_true'] at starts
    exact ⟨(Option.some.inj h).symm, hu.closedFor starts.1 starts.2⟩
  · cases h

theorem exists_of_replaceFamily (families : TokenMap) (family t : Text) :
    replaceFamily families family t = t ∨
      ∃ front rest name, (Value.fontFamily family, name) ∈ families.entries ∧
        t = front ++ family ++ rest ∧ (∀ c ∈ rest, isBlank c) ∧
          replaceFamily families family t = front ++ reference name ++ rest := by
  rw [replaceFamily]
  split
  · rename_i new front rest hnew hcut
    split
    · rename_i blank
      obtain ⟨name, hget, rfl⟩ := Option.map_eq_some_iff.1 hnew
      have entry := OrderedMap.mem_of_get?_eq_some (Option.filter_eq_some_iff.1 hget).1
      exact .inr ⟨front, rest, name, entry, eq_of_cutLast? hcut, List.all_eq_true.1 blank, rfl⟩
    · exact .inl rfl
  · exact .inl rfl

theorem notMem_of_notMem_fontFamily {family : Text} (h : ')' ∉ Value.fontFamily family) :
    ')' ∉ family := by
  have solid : ∀ c ∈ [')'], isBlank c = false := List.forall_iff_forall_mem.1 (by decide)
  rwa [← List.singleton_infix_iff, Value.infix_fontFamily_iff solid (by simp) (by decide),
    List.singleton_infix_iff] at h

/-- What does not go on with a line height starts with what no reference has. -/
theorem eq_nil_or_separates {t : Text} (h : nextIs isLineHeightPart t = false) :
    t = [] ∨ ∃ c rest, t = c :: rest ∧ TokenName.separates c := by
  cases t with
  | nil => exact .inl rfl
  | cons c rest =>
      refine .inr ⟨c, rest, rfl, ?_⟩
      by_cases blank : isBlank c
      · exact separates_of_isBlank blank
      · obtain rfl | rfl : c = '/' ∨ c = ';' := by
          simp only [nextIs, isLineHeightPart, blank] at h
          simpa [or_iff_not_imp_left] using h
        · rfl
        · rfl

/-- Only separators stand before a line height. -/
theorem CutsLineHeight.exists_separators {blanks blanks' height tail : Text}
    (cuts : CutsLineHeight t blanks blanks' height tail) :
    ∃ s, t = s ++ (height ++ tail) ∧ ∀ c ∈ s, TokenName.separates c := by
  refine ⟨blanks ++ '/' :: blanks', by simp [cuts.text], fun c hc => ?_⟩
  rcases List.mem_append.1 hc with front | back
  · exact separates_of_isBlank (cuts.blank c front)
  · rcases List.mem_cons.1 back with rfl | back
    · rfl
    · exact separates_of_isBlank (cuts.blank' c back)

section Names

variable (hn : ∀ name ∈ names, TokenName.Valid name)
include hn

theorem references_append_of_ends (a : Text) {b : Text}
    (h : nextIs isLineHeightPart b = false) :
    references names (a ++ b) = references names a ++ references names b := by
  rcases eq_nil_or_separates h with rfl | ⟨c, b, rfl, separates⟩
  · simp
  · rw [references_append_cons hn a b separates, references_cons_of_separates hn separates]

theorem CutsLineHeight.references_eq {blanks blanks' height tail : Text}
    (cuts : CutsLineHeight t blanks blanks' height tail) :
    references names t = references names height ++ references names tail := by
  obtain ⟨s, text, separates⟩ := cuts.exists_separators
  rw [text, references_separators_append hn separates,
    references_append_of_ends hn height cuts.ends]

/-- A line height is a whole text between separators, so it is replaced as such. -/
theorem keeps_lineHeight {lineHeights : TokenMap}
    (hl : ∀ e ∈ lineHeights.entries, e.2 ∈ names ∧ ¬ opening <:+: e.1) {height : Text}
    (hh : Intact names height) :
    Keeps names height ((lineHeights.reference? height).getD height) :=
  keeps_replaceWhole hn (f := id) hl (fun _ h => h) hh

theorem keeps_sizeText {lineHeights : TokenMap}
    (hl : ∀ e ∈ lineHeights.entries, e.2 ∈ names ∧ ¬ opening <:+: e.1) {name : Text}
    (hname : name ∈ names) (ht : Intact names t) :
    Keeps names t (sizeText lineHeights name t) := by
  cases h : lineHeight? t with
  | none =>
      rw [sizeText, h]
      constructor
      · exact (intact_reference_append_iff hn hname t).2 ht
      · rw [references_reference_append hn hname]
        exact List.sublist_cons_self _ _
  | some part =>
      obtain ⟨height, tail⟩ := part
      obtain ⟨blanks, blanks', cuts⟩ := exists_of_lineHeight? h
      have old := cuts.references_eq hn
      have new (H : Text) : references names (reference name ++ " / ".toList ++ H ++ tail) =
          some name :: (references names H ++ references names tail) := by
        have sign : ∀ c ∈ " / ".toList, TokenName.separates c := List.all_eq_true.1 (by decide)
        rw [references_append_of_ends hn _ cuts.ends, List.append_assoc,
          references_reference_append hn hname, references_separators_append hn sign]
        rfl
      rw [Intact, old, List.mem_append, not_or] at ht
      have kept := keeps_lineHeight hn hl ht.1
      rw [sizeText, h]
      constructor
      · rw [Intact, new]
        simpa using ⟨kept.intact, ht.2⟩
      · rw [new, old]
        exact (kept.sublist.append (List.Sublist.refl _)).cons _

/-- A size starts in no reference, since no reference has a blank. -/
theorem keeps_afterLiteral {lineHeights : TokenMap}
    (hl : ∀ e ∈ lineHeights.entries, e.2 ∈ names ∧ ¬ opening <:+: e.1) {name tail : Text}
    (hu : Unmistakable literal) (hname : name ∈ names) (ht : Intact names t)
    (h : afterLiteral? literal t = some tail) :
    Keeps names t (sizeText lineHeights name tail) := by
  obtain ⟨rfl, closed⟩ := eq_of_afterLiteral? hu h
  have same : references names (t.drop literal.length) = references names t :=
    references_drop_of_closedFor closed
  rw [Intact, ← same] at ht
  have kept := keeps_sizeText hn hl hname ht
  exact ⟨kept.intact, same ▸ kept.sublist⟩

theorem keeps_replaceSize {lineHeights : TokenMap}
    (hl : ∀ e ∈ lineHeights.entries, e.2 ∈ names ∧ ¬ opening <:+: e.1) {name : Text}
    (hu : Unmistakable literal) (hname : name ∈ names) (ht : Intact names t) :
    Keeps names t (replaceSize lineHeights literal name t) := by
  rw [replaceSize]
  split
  · rename_i tail h
    exact keeps_afterLiteral hn hl hu hname ht h
  · obtain h | ⟨a, c, rest, tail, blank, rfl, h, new⟩ :=
      exists_of_replaceInnerSize lineHeights literal name t
    · rw [h]
      exact Keeps.refl ht
    · have separates := separates_of_isBlank blank
      have parts := (intact_append_cons_iff hn a rest separates).1 ht
      rw [new]
      exact Keeps.append_cons hn separates (Keeps.refl parts.1)
        (keeps_afterLiteral hn hl hu hname parts.2 h)

theorem keeps_replaceFamily {families : TokenMap}
    (hf : ∀ e ∈ families.entries, e.2 ∈ names ∧ ')' ∉ e.1) (family : Text)
    (ht : Intact names t) : Keeps names t (replaceFamily families family t) := by
  obtain same | ⟨front, rest, name, entry, rfl, blank, text⟩ :=
    exists_of_replaceFamily families family t
  · rw [same]
    exact Keeps.refl ht
  obtain ⟨hname, close⟩ := hf _ entry
  have ends (a : Text) : references names (a ++ rest) = references names a :=
    references_append_separators hn a fun c hc => separates_of_isBlank (blank c hc)
  have old : references names (front ++ family ++ rest) = references names front := by
    rw [Intact, ends] at ht
    rw [ends, references_append_of_notMem hn ht (notMem_of_notMem_fontFamily close)]
  have new : references names (front ++ reference name ++ rest) =
      references names front ++ [some name] := by
    rw [ends, ← List.append_nil (reference name), references_append_reference hn,
      references_reference_append hn hname, references_nil]
  rw [Intact, old] at ht
  rw [text]
  constructor
  · rw [Intact, new]
    simpa using ht
  · rw [old, new]
    exact List.sublist_append_left _ _

end Names

end FontShorthand

end DesignTokens
