import DesignTokens.Proofs.LiteralShapes
import DesignTokens.Proofs.MappedValues
import DesignTokens.Color.Dark

/-!
Values that can be declared as they are: they end neither their declaration nor their rule and open
no comment. Literals of such values are such values, and so is all that numbers and colors are
written as.
-/
namespace DesignTokens

open Text

namespace Value

/-- What a declared value must not hold: the ends of a declaration and of a rule, and the opening of
a comment. -/
def breaks : List Text := [[';'], ['\x7d'], ['/', '*']]

def IsDeclarable (value : Text) : Prop := ∀ p ∈ breaks, ¬ p <:+: value

theorem isDeclarable_iff {v : Text} :
    IsDeclarable v ↔ Fits v ∧ ¬ ['/', '*'] <:+: v := by
  have single (c : Char) : [c] <:+: v ↔ c ∈ v := List.singleton_infix_iff c v
  simp only [IsDeclarable, breaks, List.forall_mem_cons, single, List.not_mem_nil, false_implies,
    implies_true, and_true]
  constructor
  · intro ⟨entry, rule, comment⟩
    exact ⟨⟨entry, rule⟩, comment⟩
  · intro ⟨fits, comment⟩
    exact ⟨fits.entry_open, fits.rule_open, comment⟩

theorem IsDeclarable.of_isInfix {v part : Text} (h : IsDeclarable v) (hp : part <:+: v) :
    IsDeclarable part := fun p hb hi => h p hb (hi.trans hp)

/-- Characters that no break has. -/
def isInert (c : Char) : Bool := !breaks.flatten.contains c

theorem isInert_of_class {chars : Char → Bool} (h : breaks.flatten.all (!chars ·)) {c : Char}
    (hc : chars c) : isInert c := by
  rw [isInert, Bool.not_eq_true', ← Bool.not_eq_true, List.contains_iff_mem]
  intro mem
  simpa [hc] using List.all_eq_true.1 h c mem

theorem of_mem_breaks {p : Text} (h : p ∈ breaks) :
    p ≠ [] ∧ ',' ∉ p ∧ ∀ c ∈ p, isInert c = false ∧ isBlank c = false := by
  have parts : ∀ p ∈ breaks, p ≠ [] ∧ ',' ∉ p ∧ p.all fun c => !isInert c && !isBlank c := by
    decide
  obtain ⟨hne, comma, chars⟩ := parts p h
  exact ⟨hne, comma, by simpa using chars⟩

theorem isDeclarable_of_inert {v : Text} (h : ∀ c ∈ v, isInert c) : IsDeclarable v := by
  intro p hb hi
  obtain ⟨hne, -, chars⟩ := of_mem_breaks hb
  obtain ⟨c, hc⟩ := List.exists_mem_of_ne_nil p hne
  simpa [h c (hi.subset hc)] using (chars c hc).1

/-! ### Normal forms -/

theorem isDeclarable_shadow {v : Text} (h : IsDeclarable v) : IsDeclarable (shadow v) := by
  intro p hb hi
  obtain ⟨hne, -, chars⟩ := of_mem_breaks hb
  exact h p hb ((infix_collapsed_iff (fun c hc => (chars c hc).2) hne v).1 hi)

theorem isDeclarable_fontFamily {v : Text} (h : IsDeclarable v) : IsDeclarable (fontFamily v) := by
  intro p hb hi
  obtain ⟨hne, comma, chars⟩ := of_mem_breaks hb
  exact h p hb ((infix_fontFamily_iff (fun c hc => (chars c hc).2) hne comma v).1 hi)

/-- After each `/` of a radius there is a blank, so no comment is opened in it. -/
theorem isDeclarable_radius {v : Text} (h : IsDeclarable v) : IsDeclarable (radius v) := by
  intro p hb hi
  obtain ⟨hne, -, chars⟩ := of_mem_breaks hb
  have solid : ∀ c ∈ p, isBlank c = false := fun c hc => (chars c hc).2
  by_cases slash : '/' ∈ p
  · have only : ∀ p ∈ breaks, '/' ∈ p → p = ['/', '*'] := by decide
    obtain rfl := only p hb slash
    rw [radius, infix_collapsed_iff solid hne, replaceAll_slash] at hi
    clear h
    induction v with
    | nil => simp at hi
    | cons c v ih =>
        apply ih
        by_cases same : c = '/'
        · simpa [same, List.infix_cons_iff, List.cons_prefix_cons] using hi
        · simpa [same, List.infix_cons_iff, List.cons_prefix_cons, Ne.symm same] using hi
  · exact h p hb ((infix_radius_iff solid hne slash v).1 hi)

end Value

open Value

/-! ### Literals -/

namespace FontShorthand

theorem text_of_sizeSuffix? {before : Option Char} {t size rest : Text}
    (h : sizeSuffix? before t = some (size, rest)) : size ++ rest <:+ t := by
  induction t generalizing before with
  | nil => cases h
  | cons c t ih =>
      rw [sizeSuffix?] at h
      split at h
      · rename_i n _ _
        have cut := List.take_append_drop n (c :: t)
        rw [List.splitAt_eq] at h
        cases h
        rw [cut]
      · exact (ih h).trans (List.suffix_cons c t)

theorem infix_of_size {v size : Text} (h : (parse v).size = some size) : size <:+: v := by
  obtain ⟨⟨size', rest⟩, hs, rfl⟩ := Option.map_eq_some_iff.1 h
  exact (List.prefix_append _ rest).isInfix.trans (text_of_sizeSuffix? hs).isInfix

theorem infix_of_lineHeight {v height : Text} (h : (parse v).lineHeight = some height) :
    height <:+: v := by
  obtain ⟨⟨size, rest⟩, hs, h⟩ := Option.bind_eq_some_iff.1 h
  obtain ⟨⟨height', tail⟩, hl, rfl⟩ := Option.map_eq_some_iff.1 h
  obtain ⟨blanks, blanks', cuts⟩ := exists_of_lineHeight? hl
  have inside : height' <:+: rest :=
    ⟨blanks ++ '/' :: blanks', tail, by rw [cuts.text]; simp⟩
  exact inside.trans ((List.suffix_append size rest).trans (text_of_sizeSuffix? hs)).isInfix

theorem infix_of_weight {v weight : Text} (h : (parse v).weight = some weight) : weight <:+: v :=
  infix_of_mem_tokens (List.mem_of_head? h)

end FontShorthand

theorem Candidates.Finds.isDeclarable {d : Declaration} {c : Category} {literal : Text}
    (h : Finds d c literal) (hd : IsDeclarable d.value) : IsDeclarable literal := by
  cases h with
  | spacing _ hl | duration _ hl | easing _ hl => exact hd.of_isInfix (infix_of_mem_tokens hl)
  | borderWidth _ hl => exact hd.of_isInfix (infix_of_mem_tokens (List.mem_of_head? hl))
  | radius => exact isDeclarable_radius hd
  | shadow => exact isDeclarable_shadow hd
  | family => exact isDeclarable_fontFamily hd
  | shorthandFamily _ hl =>
      exact isDeclarable_fontFamily (hd.of_isInfix (FontShorthand.infix_of_family? hl))
  | shorthandSize _ hl => exact hd.of_isInfix (FontShorthand.infix_of_size hl)
  | shorthandLineHeight _ hl => exact hd.of_isInfix (FontShorthand.infix_of_lineHeight hl)
  | shorthandWeight _ hl => exact hd.of_isInfix (FontShorthand.infix_of_weight hl)
  | whole => exact hd

/-! ### Numbers and colors -/

namespace Number

/-- Characters that numbers are written with. -/
def isNumberChar (c : Char) : Bool := c.isDigit || "-.infa".toList.contains c

theorem isInert_of_isNumberChar {c : Char} (h : isNumberChar c) : isInert c :=
  isInert_of_class (by decide) h

theorem isNumberChar_digits {n : Nat} : ∀ c ∈ digits n, isNumberChar c := by
  intro c hc
  rw [isNumberChar, isDigit_of_mem_digits c hc, Bool.true_or]

theorem isNumberChar_unitsText {places n : Nat} : ∀ c ∈ unitsText places n, isNumberChar c := by
  intro c hc
  unfold unitsText at hc
  split_ifs at hc
  · exact isNumberChar_digits c hc
  · have padded : ∀ c ∈ List.replicate (places + 1 - (digits n).length) '0' ++ digits n,
        isNumberChar c := by
      intro c hc
      rcases List.mem_append.1 hc with zero | digit
      · rw [List.eq_of_mem_replicate zero]
        rfl
      · exact isNumberChar_digits c digit
    rcases List.mem_append.1 hc with front | back
    · exact padded c (List.mem_of_mem_take front)
    · rcases List.mem_cons.1 back with rfl | back
      · rfl
      · exact padded c (List.mem_of_mem_drop back)

theorem isNumberChar_fixed {places : Nat} {x : Float} : ∀ c ∈ fixed places x, isNumberChar c := by
  have sign (s : Float.Model.UnpackedFloat.Sign) : ∀ c ∈ signText s, isNumberChar c := by
    cases s <;> exact List.all_eq_true.1 (by decide)
  intro c hc
  unfold fixed at hc
  split at hc
  · exact (List.mem_append.1 hc).elim (sign _ c) (isNumberChar_unitsText c)
  · exact (List.mem_append.1 hc).elim (sign _ c) (isNumberChar_unitsText c)
  · exact (List.mem_append.1 hc).elim (sign _ c) (List.all_eq_true.1 (by decide) c)
  · exact List.all_eq_true.1 (by decide) c hc

theorem dropTrailing_subset (c : Char) (t : Text) : dropTrailing c t ⊆ t := by
  intro d hd
  have := List.dropWhile_subset _ (List.mem_reverse.1 hd)
  exact List.mem_reverse.1 this

theorem isNumberChar_trimmed {places : Nat} {x : Float} :
    ∀ c ∈ trimmed places x, isNumberChar c := by
  intro c hc
  unfold trimmed at hc
  dsimp only at hc
  split_ifs at hc
  · exact List.all_eq_true.1 (by decide) c hc
  · exact isNumberChar_fixed c (dropTrailing_subset _ _ (dropTrailing_subset _ _ hc))
  · exact List.all_eq_true.1 (by decide) c hc
  · exact isNumberChar_fixed c hc

end Number

theorem LengthUnit.isInert_name {u : LengthUnit} (h : u ∈ known) : ∀ c ∈ u.name, isInert c := by
  have all : ∀ u ∈ known, u.name.all isInert := by decide
  exact List.all_eq_true.1 (all u h)

theorem isInert_lengthText {size : Float} {u : LengthUnit} (h : u ∈ LengthUnit.known) :
    ∀ c ∈ lengthText size u, isInert c := by
  intro c hc
  rcases List.mem_append.1 hc with number | name
  · exact Number.isInert_of_isNumberChar (Number.isNumberChar_trimmed c number)
  · exact LengthUnit.isInert_name h c name

theorem Length.isDeclarable_inRootSizes {b : LengthBases} {literal t : Text}
    (hl : IsDeclarable literal) (h : inRootSizes b literal = .ok t) : IsDeclarable t := by
  unfold inRootSizes at h
  split at h
  · split_ifs at h
    · cases hs : b.fromPixels .rem _ with
      | error fault =>
          rw [hs] at h
          cases h
      | ok size =>
          rw [hs] at h
          cases h
          exact isDeclarable_of_inert (isInert_lengthText (by decide))
    · cases h
      exact hl
  · cases h
    exact hl

/-- Characters that colors and times are written with. -/
def isWritten (c : Char) : Bool := Number.isNumberChar c || "s#0123456789abcdefrg(, )".toList.contains c

theorem isDeclarable_of_isWritten {v : Text} (h : ∀ c ∈ v, isWritten c) : IsDeclarable v :=
  isDeclarable_of_inert fun c hc => isInert_of_class (by decide) (h c hc)

theorem isWritten_of_isNumberChar {c : Char} (h : Number.isNumberChar c) : isWritten c := by
  rw [isWritten, h, Bool.true_or]

theorem Duration.isWritten_inSeconds (literal : Text) : ∀ c ∈ inSeconds literal, isWritten c := by
  intro c hc
  rcases List.mem_append.1 hc with number | unit
  · exact isWritten_of_isNumberChar (Number.isNumberChar_trimmed c number)
  · exact List.all_eq_true.1 (by decide) c unit

theorem isWritten_hexDigits {width n : Nat} : ∀ c ∈ hexDigits width n, isWritten c := by
  have digits : "0123456789abcdef".toList.all isWritten := by decide
  exact fun c hc => List.all_eq_true.1 digits c (mem_of_mem_hexDigits c hc)

theorem Rgba.isWritten_text (c : Rgba) : ∀ d ∈ c.text, isWritten d := by
  intro d hd
  unfold text at hd
  dsimp only at hd
  split_ifs at hd
  · rcases List.mem_cons.1 hd with rfl | hd
    · rfl
    · obtain ⟨n, -, hd⟩ := List.mem_flatMap.1 hd
      exact isWritten_hexDigits d hd
  · simp only [List.mem_append, List.mem_flatMap, List.mem_singleton] at hd
    rcases hd with ((name | ⟨n, -, digit | separator⟩) | alpha) | rfl
    · exact List.all_eq_true.1 (by decide) d name
    · exact isWritten_of_isNumberChar (Number.isNumberChar_digits d digit)
    · exact List.all_eq_true.1 (by decide) d separator
    · exact isWritten_of_isNumberChar (Number.isNumberChar_trimmed d alpha)
    · rfl

end DesignTokens
