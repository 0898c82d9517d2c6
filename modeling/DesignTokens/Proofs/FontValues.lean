import DesignTokens.Proofs.NormalForms
import DesignTokens.Proofs.WeightWords
import DesignTokens.Proofs.WrittenLengths
import DesignTokens.Stylesheet.Value

/-!
A `font` value in its plain form: a weight if there is one, a size, a line height if there is one,
and a list of families. Size, line height and families are read as they are written. So is the
weight, if there is one; if there is none, a word of the size or the line height may be taken for it.
-/
namespace DesignTokens

open Text

/-- A numeral without a sign, in ascii digits. -/
structure Numeral.IsPlain (n : Numeral) : Prop where
  unsigned : n.negative = false
  whole : ∀ c ∈ n.whole, c.isDigit
  fraction : ∀ f, n.fraction = some f → f ≠ [] ∧ ∀ c ∈ f, c.isDigit
  written : n.fraction = none → n.whole ≠ []

/-- A family name of ascii letters that is no keyword. -/
structure IsFamilyName (t : Text) : Prop where
  ne_nil : t ≠ []
  letters : ∀ c ∈ t, c.isAlpha
  free : t.map Char.toLower ∉ "normal".toList :: "bold".toList :: Value.wideKeywords

structure FontValue where
  weight : Option Text
  size : Numeral
  unit : LengthUnit
  lineHeight : Option Numeral
  families : List Text
  weight_mem : ∀ w, weight = some w → w ∈ FontShorthand.weights
  size_plain : size.IsPlain
  unit_mem : unit ∈ [LengthUnit.px, .rem, .em, .percent]
  lineHeight_plain : ∀ l, lineHeight = some l → l.IsPlain
  families_ne : families ≠ []
  family_names : ∀ t ∈ families, IsFamilyName t

namespace FontValue

/-- The weight with the blank after it. -/
def weightText (v : FontValue) : Text := v.weight.elim [] fun w => w ++ [' ']

def sizeText (v : FontValue) : Text := v.size.text ++ v.unit.name

/-- The line height with the `/` before it. -/
def heightText (v : FontValue) : Text := v.lineHeight.elim [] fun l => '/' :: l.text

def family (v : FontValue) : Text := Text.join ", ".toList v.families

def text (v : FontValue) : Text :=
  v.weightText ++ (v.sizeText ++ v.heightText ++ ' ' :: v.family)

/-- The parts as they are written. -/
def parts (v : FontValue) : FontShorthand :=
  ⟨some v.sizeText, v.lineHeight.map Numeral.text, v.weight, some v.family⟩

/-- There is no weight, and a word of the size or the line height is one. -/
def HidesWeight (v : FontValue) : Prop :=
  v.weight = none ∧ ∃ run ∈ wordRuns (v.sizeText ++ v.heightText), FontShorthand.isWeight run

end FontValue

namespace Text

/-- The classes that a letter is in, and the signs that it is not. -/
structure LetterClasses (c : Char) : Prop where
  word : isWord c
  solid : isBlank c = false
  not_digit : Text.isDigit c = false
  lower_not_digit : c.toLower.isDigit = false
  ne_minus : c ≠ '-'
  ne_point : c ≠ '.'
  ne_comma : c ≠ ','
  ne_slash : c ≠ '/'

theorem letterClasses {c : Char} (h : c.isAlpha) : LetterClasses c := by
  have small := lt_128_of_isAlphanum (c := c) (by rw [Char.isAlphanum, h, Bool.true_or])
  have table := forall_of_lt_128 (p := fun c => !c.isAlpha ||
    (isWord c && !isBlank c && !Text.isDigit c && !c.toLower.isDigit && c != '-' && c != '.' &&
      c != ',' && c != '/')) (by decide +kernel) small
  simp only [h, Bool.not_true, Bool.false_or, Bool.and_eq_true, Bool.not_eq_true', bne_iff_ne,
    and_assoc] at table
  obtain ⟨word, solid, digit, lower, minus, point, comma, slash⟩ := table
  exact ⟨word, solid, digit, lower, minus, point, comma, slash⟩

end Text

/-- The characters of plain `font` values. -/
def isFontChar (c : Char) : Bool := c.isAlphanum || ".%/, ".toList.contains c

theorem lt_128_of_isFontChar {c : Char} (h : isFontChar c) : c.toNat < 128 := by
  have signs : IsAscii ".%/, ".toList := isAscii_of_all (by decide)
  rw [isFontChar, Bool.or_eq_true, List.contains_iff_mem] at h
  exact h.elim lt_128_of_isAlphanum (signs c)

namespace Numeral.IsPlain

variable {n : Numeral}

theorem isWritten (h : n.IsPlain) : n.IsWritten := by
  refine ⟨fun c hc => isDigit_of_ascii (h.whole c hc), fun f hf => ?_, h.written⟩
  obtain ⟨written, digits⟩ := h.fraction f hf
  exact ⟨written, fun c hc => isDigit_of_ascii (digits c hc)⟩

theorem mem_text_cases (h : n.IsPlain) : ∀ c ∈ n.text, c.isDigit ∨ c = '.' := by
  intro c hc
  rw [text_eq, h.unsigned, if_neg Bool.false_ne_true, List.nil_append, size,
    List.mem_append] at hc
  rcases hc with whole | fraction
  · exact .inl (h.whole c whole)
  · cases hf : n.fraction with
    | none =>
        rw [hf] at fraction
        cases fraction
    | some digits =>
        rw [hf, Option.elim_some] at fraction
        rcases List.mem_cons.1 fraction with point | digit
        · exact .inr point
        · exact .inl ((h.fraction digits hf).2 c digit)

theorem isLineHeightPart_of_mem_text (h : n.IsPlain) :
    ∀ c ∈ n.text, FontShorthand.isLineHeightPart c := by
  intro c hc
  rcases h.mem_text_cases c hc with digit | rfl
  · have table := forall_of_lt_128 (p := fun c => !c.isDigit || FontShorthand.isLineHeightPart c)
      (by decide +kernel) (lt_128_of_isDigit digit)
    simpa [digit] using table
  · rfl

theorem isFontChar_of_mem_text (h : n.IsPlain) : ∀ c ∈ n.text, isFontChar c := by
  intro c hc
  rcases h.mem_text_cases c hc with digit | rfl
  · simp [isFontChar, Char.isAlphanum, digit]
  · rfl

end Numeral.IsPlain

namespace FontShorthand

/-- A size is read as it is written, whatever follows it. -/
theorem sizeLength?_append {n : Numeral} (h : n.IsPlain) {u : LengthUnit}
    (hu : u ∈ [LengthUnit.px, .rem, .em, .percent]) (rest : Text) :
    sizeLength? (n.text ++ u.name ++ rest) = some (n.text ++ u.name).length := by
  have known : ∀ u ∈ [LengthUnit.px, .rem, .em, .percent], u ∈ LengthUnit.known := by decide
  have written : Length.Writes n u (n.text ++ u.name) :=
    .mk _ h.isWritten (known u hu) ⟨rfl, isPrefixNoCase_of_start (List.prefix_refl _)⟩
  rw [sizeLength?, written.scan?_append known hu]
  simp
  omega

theorem sizeLength?_eq_none {t : Text} (h : Numeral.scan? t = none) : sizeLength? t = none := by
  rw [sizeLength?, Length.scan?, h]
  rfl

theorem sizeLength?_letter {c : Char} (h : c.isAlpha) (t : Text) : sizeLength? (c :: t) = none := by
  have classes := letterClasses h
  apply sizeLength?_eq_none
  refine Option.eq_none_iff_forall_ne_some.2 fun ⟨n, rest⟩ scanned => ?_
  obtain ⟨written, text⟩ := Numeral.of_scan? scanned
  obtain ⟨d, tail, hd⟩ := List.exists_cons_of_ne_nil written.text_ne_nil
  rw [hd, List.cons_append] at text
  obtain ⟨rfl, -⟩ := List.cons.inj text
  rcases written.mem_text_cases c (hd ▸ List.mem_cons_self) with digit | point | minus
  · rw [classes.not_digit] at digit
    cases digit
  · exact classes.ne_point point
  · exact classes.ne_minus minus

theorem sizeLength?_digits {digits : Text} (h : ∀ c ∈ digits, c.isDigit) (rest : Text) :
    sizeLength? (digits ++ ' ' :: rest) = none := by
  cases digits with
  | nil => exact sizeLength?_eq_none rfl
  | cons c digits =>
      have written : (⟨false, c :: digits, none⟩ : Numeral).IsWritten :=
        ⟨fun d hd => isDigit_of_ascii (h d hd), nofun, fun _ => List.cons_ne_nil _ _⟩
      have scanned : Numeral.scan? ((⟨false, c :: digits, none⟩ : Numeral).text ++ ' ' :: rest) =
          some (⟨false, c :: digits, none⟩, ' ' :: rest) :=
        Numeral.scan?_text_append written rfl rfl
      rw [Numeral.text_eq] at scanned
      simp only [Numeral.size, Bool.false_eq_true, if_false, Option.elim_none, List.append_nil,
        List.nil_append] at scanned
      rw [sizeLength?, Length.scan?, scanned]
      rfl

/-- No size starts in a weight or at the blank after it. -/
theorem sizeLength?_weight {w : Text} (hw : w ∈ weights) {u : Text} (hu : u <:+ w) (rest : Text) :
    sizeLength? (u ++ ' ' :: rest) = none := by
  have table : weights.all fun w => w.all Char.isDigit || w.all Char.isAlpha := by decide +kernel
  have kinds := List.all_eq_true.1 table w hw
  rw [Bool.or_eq_true, List.all_eq_true, List.all_eq_true] at kinds
  cases u with
  | nil => exact sizeLength?_digits (List.forall_mem_nil _) rest
  | cons c u =>
      rcases kinds with digits | letters
      · exact sizeLength?_digits (fun c hc => digits c (hu.subset hc)) rest
      · exact sizeLength?_letter (letters c (hu.subset List.mem_cons_self)) _

end FontShorthand

theorem IsFamilyName.letterClasses {t : Text} (h : IsFamilyName t) :
    ∀ c ∈ t, Text.LetterClasses c := fun c hc => Text.letterClasses (h.letters c hc)

/-- A list of family names begins with a letter and ends with one. -/
theorem join_ends {names : List Text} (hne : names ≠ []) (hn : ∀ t ∈ names, IsFamilyName t) :
    (∃ c t, join ", ".toList names = c :: t ∧ LetterClasses c) ∧
      ∃ c, (join ", ".toList names).getLast? = some c ∧ LetterClasses c := by
  induction names with
  | nil => exact absurd rfl hne
  | cons name names ih =>
      have plain := hn name List.mem_cons_self
      obtain ⟨c, t, rfl⟩ := List.exists_cons_of_ne_nil plain.ne_nil
      have first := plain.letterClasses c List.mem_cons_self
      cases names with
      | nil =>
          have last := List.getLast?_eq_some_getLast plain.ne_nil
          exact ⟨⟨c, t, rfl, first⟩, _, last, plain.letterClasses _ (List.getLast_mem _)⟩
      | cons name' names =>
          obtain ⟨⟨d, u, hu, -⟩, e, he, last⟩ :=
            ih (List.cons_ne_nil _ _) fun t ht => hn t (.tail _ ht)
          have whole : join ", ".toList ((c :: t) :: name' :: names) =
              c :: t ++ ", ".toList ++ join ", ".toList (name' :: names) := rfl
          have nonempty : join ", ".toList (name' :: names) ≠ [] := hu ▸ List.cons_ne_nil d u
          rw [whole]
          refine ⟨⟨c, _, rfl, first⟩, e, ?_, last⟩
          rw [List.getLast?_append_of_ne_nil _ nonempty, he]

theorem isFontChar_of_mem_join {names : List Text} (hn : ∀ t ∈ names, IsFamilyName t) :
    ∀ c ∈ join ", ".toList names, isFontChar c := by
  induction names with
  | nil => exact List.forall_mem_nil _
  | cons name names ih =>
      have first : ∀ c ∈ name, isFontChar c := by
        intro c hc
        simp [isFontChar, Char.isAlphanum, (hn name List.mem_cons_self).letters c hc]
      cases names with
      | nil => exact first
      | cons name' names =>
          have later := ih fun t ht => hn t (.tail _ ht)
          have comma : ∀ c ∈ ", ".toList, isFontChar c := List.all_eq_true.1 (by decide)
          exact List.forall_mem_append.2 ⟨List.forall_mem_append.2 ⟨first, comma⟩, later⟩

theorem IsFamilyName.not_isWeight {t : Text} (h : IsFamilyName t) :
    FontShorthand.isWeight t = false := by
  have table : ∀ w ∈ FontShorthand.weights,
      w ∈ ["normal".toList, "bold".toList] ∨ w.head?.any Char.isDigit := by decide
  rw [FontShorthand.isWeight, ← Bool.not_eq_true, List.contains_iff_mem]
  intro hw
  rcases table _ hw with keyword | digit
  · refine h.free ?_
    rw [List.mem_cons, List.mem_singleton] at keyword
    rcases keyword with normal | bold
    · exact normal ▸ List.mem_cons_self
    · exact bold ▸ .tail _ List.mem_cons_self
  · obtain ⟨c, u, rfl⟩ := List.exists_cons_of_ne_nil h.ne_nil
    have first := (h.letterClasses c List.mem_cons_self).lower_not_digit
    rw [List.map_cons, List.head?_cons, Option.any_some, first] at digit
    cases digit

theorem wordRuns_of_isWord {t : Text} (h : ∀ c ∈ t, isWord c) : wordRuns t = [t] :=
  List.splitOnP_eq_singleton fun c hc => by rw [h c hc]; rfl

theorem wordRuns_append_cons {c : Char} (hc : isWord c = false) (a b : Text) :
    wordRuns (a ++ c :: b) = wordRuns a ++ wordRuns b :=
  List.splitOnP_append_cons a b (by simp [hc])

/-- No family name is taken for a weight. -/
theorem find?_wordRuns_join {names : List Text} (hn : ∀ t ∈ names, IsFamilyName t) :
    (wordRuns (join ", ".toList names)).find? FontShorthand.isWeight = none := by
  induction names with
  | nil => rfl
  | cons name names ih =>
      have plain := hn name List.mem_cons_self
      have single := wordRuns_of_isWord fun c hc => (plain.letterClasses c hc).word
      have none := plain.not_isWeight
      cases names with
      | nil =>
          rw [join, single, List.find?_singleton, none]
          rfl
      | cons name' names =>
          have later := ih fun t ht => hn t (.tail _ ht)
          have whole : join ", ".toList (name :: name' :: names) =
              name ++ ',' :: ([] ++ ' ' :: join ", ".toList (name' :: names)) := by
            simp [join]
          have empty : FontShorthand.isWeight [] = false := rfl
          rw [whole, wordRuns_append_cons rfl, wordRuns_append_cons rfl, single,
            List.singleton_append, List.find?_cons_of_neg (by simp [none]),
            wordRuns_of_isWord (List.forall_mem_nil _), List.singleton_append,
            List.find?_cons_of_neg (by simp [empty]), later]

namespace FontShorthand

theorem sizeSuffix?_of_none {before : Option Char} {c : Char} {t : Text}
    (h : sizeLength? (c :: t) = none) :
    sizeSuffix? before (c :: t) = sizeSuffix? (some c) t := by
  rw [sizeSuffix?, h]
  cases before.all isBlank <;> rfl

theorem afterSize?_of_none {c : Char} {t : Text} (h : sizeLength? (c :: t) = none) :
    afterSize? (c :: t) = afterSize? t := by
  rw [afterSize?, h]

theorem sizeSuffix?_of_some {before : Option Char} (hb : before.all isBlank) {size rest : Text}
    (hne : size ≠ []) (h : sizeLength? (size ++ rest) = some size.length) :
    sizeSuffix? before (size ++ rest) = some (size, rest) := by
  obtain ⟨c, t, rfl⟩ := List.exists_cons_of_ne_nil hne
  rw [List.cons_append, sizeSuffix?, ← List.cons_append, hb, h]
  simp

theorem afterSize?_of_some {size rest : Text} (hne : size ≠ [])
    (h : sizeLength? (size ++ rest) = some size.length) : afterSize? (size ++ rest) = some rest := by
  obtain ⟨c, t, rfl⟩ := List.exists_cons_of_ne_nil hne
  rw [List.cons_append, afterSize?, ← List.cons_append, h]
  simp

/-- Sizes are looked for after a weight and its blank. -/
theorem searches_weight {w : Text} (hw : w ∈ weights) (before : Option Char) (rest : Text) :
    sizeSuffix? before (w ++ ' ' :: rest) = sizeSuffix? (some ' ') rest ∧
      afterSize? (w ++ ' ' :: rest) = afterSize? rest := by
  have main (u : Text) (hu : u <:+ w) (before : Option Char) :
      sizeSuffix? before (u ++ ' ' :: rest) = sizeSuffix? (some ' ') rest ∧
        afterSize? (u ++ ' ' :: rest) = afterSize? rest := by
    induction u generalizing before with
    | nil =>
        have none := sizeLength?_weight hw hu rest
        exact ⟨sizeSuffix?_of_none none, afterSize?_of_none none⟩
    | cons c u ih =>
        have none := sizeLength?_weight hw hu rest
        have later := ih ((List.suffix_cons c u).trans hu) (some c)
        exact ⟨(sizeSuffix?_of_none none).trans later.1, (afterSize?_of_none none).trans later.2⟩
  exact main w (List.suffix_refl w) before

end FontShorthand

namespace FontValue

open FontShorthand

variable (v : FontValue)

theorem sizeText_ne_nil : v.sizeText ≠ [] := by
  simp [sizeText, v.size_plain.isWritten.text_ne_nil]

theorem sizeLength?_sizeText (rest : Text) :
    sizeLength? (v.sizeText ++ rest) = some v.sizeText.length :=
  sizeLength?_append v.size_plain v.unit_mem rest

/-- The size is found where it stands. -/
theorem searches_text (rest : Text) :
    sizeSuffix? none (v.weightText ++ (v.sizeText ++ rest)) = some (v.sizeText, rest) ∧
      afterSize? (v.weightText ++ (v.sizeText ++ rest)) = some rest := by
  have length := v.sizeLength?_sizeText rest
  have found (before : Option Char) (hb : before.all isBlank) :=
    sizeSuffix?_of_some hb v.sizeText_ne_nil length
  have after := afterSize?_of_some v.sizeText_ne_nil length
  rw [weightText]
  cases h : v.weight with
  | none => exact ⟨found none rfl, after⟩
  | some w =>
      have skipped := searches_weight (v.weight_mem w h) none (v.sizeText ++ rest)
      rw [Option.elim_some, List.append_assoc, List.singleton_append, skipped.1, skipped.2]
      exact ⟨found (some ' ') rfl, after⟩

theorem heightText_none (h : v.lineHeight = none) : v.heightText = [] := by rw [heightText, h]; rfl

theorem heightText_some {l : Numeral} (h : v.lineHeight = some l) :
    v.heightText = '/' :: l.text := by rw [heightText, h]; rfl

/-- The line height ends at the blank after it; without one, what follows is not taken for it. -/
theorem lineHeight?_heightText {rest : Text} (hb : nextIs isBlank rest = false)
    (hs : nextIs (· == '/') rest = false) :
    lineHeight? (v.heightText ++ ' ' :: rest) =
      v.lineHeight.map fun l => (l.text, ' ' :: rest) := by
  cases h : v.lineHeight with
  | none =>
      have left : trimLeft (' ' :: rest) = rest :=
        dropWhile_append_of_nextIs (List.forall_mem_singleton.2 rfl) hb
      rw [v.heightText_none h, List.nil_append, lineHeight?, left]
      split
      · cases hs
      · rfl
  | some l =>
      have plain := v.lineHeight_plain l h
      have parts := plain.isLineHeightPart_of_mem_text
      obtain ⟨c, t, ht⟩ := List.exists_cons_of_ne_nil plain.isWritten.text_ne_nil
      have solid : isBlank c = false := by
        have first := parts c (ht ▸ List.mem_cons_self)
        simp only [isLineHeightPart, Bool.and_eq_true, Bool.not_eq_true'] at first
        exact first.1.1
      have left : trimLeft (l.text ++ ' ' :: rest) = l.text ++ ' ' :: rest := by
        rw [ht]
        exact List.dropWhile_cons_of_neg (by simp [solid])
      have slash : trimLeft ('/' :: (l.text ++ ' ' :: rest)) = '/' :: (l.text ++ ' ' :: rest) := rfl
      rw [v.heightText_some h, List.cons_append, lineHeight?, slash]
      have stop : isLineHeightPart ' ' = false := rfl
      simp only [left, takeWhile_run parts stop, dropWhile_run parts stop]
      split
      · rename_i nil
        exact absurd nil plain.isWritten.text_ne_nil
      · rfl

/-- The family begins with a letter and ends with one. -/
theorem family_ends : (∃ c t, v.family = c :: t ∧ LetterClasses c) ∧
    ∃ c, v.family.getLast? = some c ∧ LetterClasses c :=
  join_ends v.families_ne v.family_names

theorem family?_text {blanks : Text} (hb : ∀ c ∈ blanks, isBlank c) :
    family? (v.text ++ blanks) = some v.family := by
  obtain ⟨⟨c, t, ht, first⟩, d, hd, last⟩ := v.family_ends
  have solid : nextIs isBlank (v.family ++ blanks) = false := by
    rw [ht]
    exact first.solid
  have slash : nextIs (· == '/') (v.family ++ blanks) = false := by
    rw [ht]
    simp [nextIs, first.ne_slash]
  have after : afterSize? (v.text ++ blanks) = some (v.heightText ++ ' ' :: (v.family ++ blanks)) := by
    rw [text, List.append_assoc, List.append_assoc, List.append_assoc, (v.searches_text _).2]
    rfl
  have trimmed : trim (' ' :: (v.family ++ blanks)) = v.family := by
    rw [trim_cons_of_blank rfl]
    exact trim_append_blanks (by rw [ht]; exact first.solid) (by rw [hd]; exact last.solid) hb
  have written : v.family.isEmpty = false := by rw [ht]; rfl
  rw [family?, after]
  simp only [Option.bind_eq_bind, Option.bind_some, v.lineHeight?_heightText solid slash]
  cases h : v.lineHeight with
  | none => simp [v.heightText_none h, trimmed, written]
  | some l => simp [trimmed, written]

theorem isFontChar_of_mem_text : ∀ c ∈ v.text, isFontChar c := by
  have weight : ∀ c ∈ v.weightText, isFontChar c := by
    rw [weightText]
    cases h : v.weight with
    | none => exact List.forall_mem_nil _
    | some w =>
        have table : weights.all fun w => w.all isFontChar := by decide +kernel
        have plain := List.all_eq_true.1 (List.all_eq_true.1 table w (v.weight_mem w h))
        exact List.forall_mem_append.2 ⟨plain, List.forall_mem_singleton.2 rfl⟩
  have unit : ∀ c ∈ v.unit.name, isFontChar c := by
    have table : [LengthUnit.px, .rem, .em, .percent].all fun u => u.name.all isFontChar := by
      decide +kernel
    exact List.all_eq_true.1 (List.all_eq_true.1 table _ v.unit_mem)
  have height : ∀ c ∈ v.heightText, isFontChar c := by
    cases h : v.lineHeight with
    | none =>
        rw [v.heightText_none h]
        exact List.forall_mem_nil _
    | some l =>
        rw [v.heightText_some h]
        exact List.forall_mem_cons.2 ⟨rfl, (v.lineHeight_plain l h).isFontChar_of_mem_text⟩
  have family : ∀ c ∈ ' ' :: v.family, isFontChar c :=
    List.forall_mem_cons.2 ⟨rfl, isFontChar_of_mem_join v.family_names⟩
  have size := List.forall_mem_append.2 ⟨v.size_plain.isFontChar_of_mem_text, unit⟩
  have lengths := List.forall_mem_append.2 ⟨size, height⟩
  exact List.forall_mem_append.2 ⟨weight, List.forall_mem_append.2 ⟨lengths, family⟩⟩

theorem isAscii_text : IsAscii v.text := fun c hc =>
  lt_128_of_isFontChar (v.isFontChar_of_mem_text c hc)

theorem weight_text : Text.firstToken? weightToken v.text =
    v.weight.or ((wordRuns (v.sizeText ++ v.heightText)).find? isWeight) := by
  have families := find?_wordRuns_join v.family_names
  have others : (wordRuns (v.sizeText ++ v.heightText ++ ' ' :: v.family)).find? isWeight =
      (wordRuns (v.sizeText ++ v.heightText)).find? isWeight := by
    rw [wordRuns_append_cons rfl, List.find?_append, family, families, Option.or_none]
  rw [firstToken?_weightToken v.isAscii_text, text, weightText]
  cases h : v.weight with
  | none => exact others
  | some w =>
      have hw := v.weight_mem w h
      have word : isWeight w ∧ wordRuns w = [w] := by
        have table : ∀ w ∈ weights, isWeight w ∧ wordRuns w = [w] := by decide
        exact table w hw
      rw [Option.elim_some, List.append_assoc, List.singleton_append, wordRuns_append_cons rfl,
        word.2, List.singleton_append, List.find?_cons_of_pos word.1]
      rfl

/-- All parts are read as they are written, but a weight that is not there may be found. -/
theorem parse_text : parse v.text =
    { v.parts with
      weight := v.weight.or ((wordRuns (v.sizeText ++ v.heightText)).find? isWeight) } := by
  obtain ⟨⟨c, t, ht, first⟩, -⟩ := v.family_ends
  have family := v.family?_text (List.forall_mem_nil _)
  have size : sizeSuffix? none v.text = some (v.sizeText, v.heightText ++ ' ' :: v.family) := by
    rw [text, List.append_assoc, (v.searches_text _).1]
  have solid : nextIs isBlank v.family = false := by
    rw [ht]
    exact first.solid
  have slash : nextIs (· == '/') v.family = false := by
    rw [ht]
    simp [nextIs, first.ne_slash]
  have height := v.lineHeight?_heightText solid slash
  rw [List.append_nil] at family
  rw [parse, family, v.weight_text, size]
  simp only [Option.map_some, Option.bind_some, height, parts, Option.map_map]
  rfl

/-- The parts are read as they are written unless a weight is found that is not there. -/
theorem parse_text_iff : parse v.text = v.parts ↔ ¬ v.HidesWeight := by
  have same : parse v.text = v.parts ↔
      v.weight.or ((wordRuns (v.sizeText ++ v.heightText)).find? isWeight) = v.weight := by
    rw [parse_text, parts]
    simp
  rw [same, HidesWeight]
  cases h : v.weight with
  | none => simp
  | some w => simp

end FontValue

end DesignTokens
