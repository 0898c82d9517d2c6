import DesignTokens.Proofs.InsertedReferences
import DesignTokens.Proofs.WrittenLengths
import Mathlib

/-!
Where a literal stands alone. A literal that stands alone nowhere in a text leaves the text, and one
that does somewhere puts in what it is replaced by. Blanks at the end of a text do not matter to
literals without blanks at their ends. In a text that is no longer than the literal only the text as
a whole can be the literal, and in a reference only five parts can.
-/
namespace DesignTokens

namespace Text

open Spares

variable {spelling : Spelling} {literal new t : Text} {before : Option Char}

/-- A literal stands alone at the start of a text, after the character before. -/
structure LoneAt (spelling : Spelling) (literal : Text) (before : Option Char) (t : Text) :
    Prop where
  found : spelling.matches literal t
  front : before.any Length.joinsNext = false
  back : nextIs joinsPrevious (t.drop literal.length) = false

/-- A literal stands alone somewhere in a text. -/
def Lone (spelling : Spelling) (literal t : Text) : Prop :=
  ∃ front back, t = front ++ back ∧ LoneAt spelling literal front.getLast? back

theorem any_getLast?_of_dropLast {p : Char → Bool} (h : ∀ c ∈ t.dropLast, p c) {a b : Text}
    (text : t = a ++ b) (ha : a ≠ []) (hb : b ≠ []) : a.getLast?.any p := by
  rw [List.getLast?_eq_some_getLast ha]
  refine h _ ?_
  rw [text, List.dropLast_append_of_ne_nil hb]
  exact List.mem_append_left _ (List.getLast_mem ha)

theorem loneToken_eq_some_iff {n : Nat} : loneToken spelling literal before t = some n ↔
    LoneAt spelling literal before t ∧ n = literal.length := by
  have alone : LoneAt spelling literal before t ↔ (spelling.matches literal t &&
      !before.any Length.joinsNext && !nextIs joinsPrevious (t.drop literal.length)) := by
    simp only [Bool.and_eq_true, Bool.not_eq_true', and_assoc]
    exact ⟨fun ⟨found, front, back⟩ => ⟨found, front, back⟩,
      fun ⟨found, front, back⟩ => ⟨found, front, back⟩⟩
  rw [loneToken, alone]
  split_ifs with found
  · simp [found, eq_comm]
  · simp [found]

/-- Nothing that stands alone starts inside of text whose characters join what comes next. -/
theorem loneToken_inside_eq_none (joins : ∀ c ∈ t.dropLast, Length.joinsNext c) {a b : Text}
    (text : t = a ++ b) (ha : a ≠ []) (hb : b ≠ []) (rest : Text) :
    loneToken spelling literal a.getLast? (b ++ rest) = none := by
  rw [Option.eq_none_iff_forall_ne_some]
  intro n found
  have free := (loneToken_eq_some_iff.1 found).1.front
  rw [any_getLast?_of_dropLast joins text ha hb] at free
  cases free

theorem standsAlone_iff : standsAlone before t ↔ LoneAt spelling [] before t := by
  rw [standsAlone, Bool.and_eq_true, Bool.not_eq_true', Bool.not_eq_true']
  constructor
  · rintro ⟨front, back⟩
    refine ⟨?_, front, back⟩
    cases spelling <;> simp [Spelling.matches, isPrefixNoCase]
  · exact fun alone => ⟨alone.front, alone.back⟩

/-! ### What is replaced -/

theorem insertAlone_of_not (h : ∀ front back, t = front ++ back →
    standsAlone (front.getLast?.or before) back = false) : insertAlone new before t = t := by
  induction t generalizing before with
  | nil =>
      have none := h [] [] rfl
      rw [List.getLast?_nil, Option.none_or] at none
      rw [insertAlone, none]
      rfl
  | cons c t ih =>
      have none := h [] (c :: t) rfl
      rw [List.getLast?_nil, Option.none_or] at none
      rw [insertAlone, none, ih]
      · rfl
      · intro front back text
        rw [← getLast?_cons_or]
        exact h (c :: front) back (by rw [text]; rfl)

theorem infix_insertAlone {front back : Text}
    (h : standsAlone (front.getLast?.or before) back) :
    new <:+: insertAlone new before (front ++ back) := by
  induction front generalizing before with
  | nil =>
      rw [List.getLast?_nil, Option.none_or] at h
      rw [List.nil_append, insertAlone.eq_def, if_pos h]
      exact (List.prefix_append new _).isInfix
  | cons c front ih =>
      rw [getLast?_cons_or] at h
      rw [List.cons_append, insertAlone]
      exact (ih h).trans ((List.suffix_cons c _).trans (List.suffix_append _ _)).isInfix

/-- A position at which a recognizer finds a token has one, or is in one that starts before. -/
theorem infix_replaceFrom {r : Recognizer} {front back : Text} {n : Nat} (hne : back ≠ [])
    (h : r (front.getLast?.or before) back = some (n + 1)) :
    new <:+: replaceFrom r new before 0 (front ++ back) := by
  induction front generalizing before with
  | nil =>
      obtain ⟨c, back, rfl⟩ := List.exists_cons_of_ne_nil hne
      rw [List.getLast?_nil, Option.none_or] at h
      rw [List.nil_append, replaceFrom_token h]
      exact (List.prefix_append new _).isInfix
  | cons c front ih =>
      rw [List.cons_append]
      by_cases first : ∃ m, r before (c :: (front ++ back)) = some (m + 1)
      · obtain ⟨m, first⟩ := first
        rw [replaceFrom_token first]
        exact (List.prefix_append new _).isInfix
      · rw [getLast?_cons_or] at h
        rw [replaceFrom_char (by simpa using first)]
        exact (ih h).trans (List.suffix_cons c _).isInfix

theorem replaceFrom_skip_append {r : Recognizer} (s rest : Text) :
    replaceFrom r new before s.length (s ++ rest) =
      replaceFrom r new (s.getLast?.or before) 0 rest := by
  induction s generalizing before with
  | nil => rfl
  | cons c s ih =>
      rw [List.length_cons, List.cons_append, replaceFrom_skip, ih, getLast?_cons_or]

theorem replaceFrom_of_none {r : Recognizer} (h : ∀ front back n, back ≠ [] → t = front ++ back →
    r (front.getLast?.or before) back ≠ some (n + 1)) : replaceFrom r new before 0 t = t := by
  have whole := @replaceFrom_append r new before t [] (by simpa using h)
  rwa [List.append_nil, show replaceFrom r new _ 0 [] = [] from rfl, List.append_nil] at whole

theorem replaceLone_of_not_lone (h : ¬ Lone spelling literal t) :
    replaceLone spelling literal new t = t := by
  have nowhere (front back : Text) (text : t = front ++ back) :
      ¬ LoneAt spelling literal front.getLast? back := fun alone => h ⟨front, back, text, alone⟩
  rw [replaceLone]
  split
  · rename_i empty
    obtain rfl := List.isEmpty_iff.1 empty
    refine insertAlone_of_not fun front back text => ?_
    rw [Option.or_none]
    exact Bool.eq_false_iff.2 (mt standsAlone_iff.1 (nowhere front back text))
  · refine replaceFrom_of_none fun front back n _ text found => ?_
    rw [Option.or_none] at found
    exact nowhere front back text (loneToken_eq_some_iff.1 found).1

theorem infix_replaceLone (h : Lone spelling literal t) :
    new <:+: replaceLone spelling literal new t := by
  obtain ⟨front, back, rfl, alone⟩ := h
  rw [replaceLone]
  split
  · rename_i empty
    obtain rfl := List.isEmpty_iff.1 empty
    apply infix_insertAlone
    rw [Option.or_none]
    exact standsAlone_iff.2 alone
  · rename_i filled
    have found := loneToken_eq_some_iff.2 ⟨alone, rfl⟩
    obtain ⟨c, literal, rfl⟩ := List.exists_cons_of_ne_nil (by simpa using filled)
    have hne : back ≠ [] := by
      rintro rfl
      cases spelling <;> cases alone.found
    exact infix_replaceFrom hne (by rwa [Option.or_none])

/-! ### Step by step -/

/-- A recognizer that takes a literal, wherever else it may look. -/
structure Seeks (r : Recognizer) (literal : Text) : Prop where
  ne_nil : literal ≠ []
  taken : ∀ before t n, r before t = some n → literal <+: t ∧ n = literal.length

theorem seeks_loneToken (hne : literal ≠ []) : Seeks (loneToken .exact literal) literal :=
  ⟨hne, fun _ _ _ h => ⟨List.isPrefixOf_iff_prefix.1 (loneToken_eq_some_iff.1 h).1.found,
    (loneToken_eq_some_iff.1 h).2⟩⟩

theorem seeks_literalToken (hne : literal ≠ []) : Seeks (literalToken literal) literal := by
  refine ⟨hne, fun before t n h => ?_⟩
  rw [literalToken] at h
  split at h
  · rename_i start
    exact ⟨List.isPrefixOf_iff_prefix.1 start, (Option.some.inj h).symm⟩
  · cases h

namespace Seeks

variable {r : Recognizer} (h : Seeks r literal)
include h

theorem replaceFrom_found (found : r before (literal ++ t) = some literal.length) :
    replaceFrom r new before 0 (literal ++ t) =
      new ++ replaceFrom r new literal.getLast? 0 t := by
  obtain ⟨c, rest, rfl⟩ := List.exists_cons_of_ne_nil h.ne_nil
  have last : (c :: rest).getLast? = rest.getLast?.or (some c) := by
    rw [← getLast?_cons_or none, Option.or_none]
  rw [List.cons_append, List.length_cons] at found
  rw [List.cons_append, replaceFrom_token found, replaceFrom_skip_append, last]

omit h in
theorem replaceFrom_copied {c : Char} (copied : r before (c :: t) = none) :
    replaceFrom r new before 0 (c :: t) = c :: replaceFrom r new (some c) 0 t :=
  replaceFrom_char fun _ found => by simp [copied] at found

omit new in
/-- Induction over a replacement from left to right: the literal is taken, or a character copied. -/
theorem steps {P : Option Char → Text → Prop} (nil : ∀ before, P before [])
    (found : ∀ before t, r before (literal ++ t) = some literal.length → P literal.getLast? t →
      P before (literal ++ t))
    (copied : ∀ before c t, r before (c :: t) = none → P (some c) t → P before (c :: t))
    (before : Option Char) (t : Text) : P before t := by
  induction length : t.length using Nat.strong_induction_on generalizing before t with
  | h n ih =>
      cases t with
      | nil => exact nil before
      | cons c t =>
          cases first : r before (c :: t) with
          | none =>
              rw [List.length_cons] at length
              exact copied before c t first (ih t.length (by omega) _ t rfl)
          | some k =>
              obtain ⟨⟨rest, text⟩, rfl⟩ := h.taken _ _ _ first
              rw [← text] at length first ⊢
              have positive := List.length_pos_of_ne_nil h.ne_nil
              rw [List.length_append] at length
              exact found before rest first (ih rest.length (by omega) _ rest rfl)

end Seeks

/-! ### Blanks -/

theorem inRanges_of_ofNat {n : Nat} (h : inRanges blankRanges (Char.ofNat n).toNat) :
    inRanges blankRanges n := by
  rw [Char.toNat_ofNat] at h
  split at h
  · exact h
  · cases h

theorem inRanges_of_lowerIn {n : Nat} (h : inRanges blankRanges (lowerIn lowerRuns n)) :
    inRanges blankRanges n := by
  have apart : ∀ run ∈ lowerRuns, ∀ range ∈ blankRanges, 0 < range.1 ∧
      (run.last + run.shift < range.1 ∨ range.2 < run.first + run.shift) := by decide +kernel
  rcases lowerIn_cases lowerRuns n with same | ⟨run, hr, first, last, lowered⟩
  · rwa [same] at h
  · obtain ⟨range, hrange, low, high⟩ := exists_range_of_inRanges h
    have := apart run hr range hrange
    omega

/-- No other letter case of a character that is not blank is a blank. -/
theorem isBlank_of_letterClass {c : Char} (h : isBlank (letterClass c)) : isBlank c := by
  by_cases ascii : c.toNat < 128
  · have table := forall_of_lt_128 (p := fun c => !isBlank (letterClass c) || isBlank c)
      (by decide +kernel) ascii
    simpa [h] using table
  · rw [letterClass, if_neg ascii, lowerChar, if_neg ascii] at h
    have variant := inRanges_of_ofNat h
    have solid : ∀ v ∈ letterVariants, inRanges blankRanges v.2 = false := by decide +kernel
    rcases variantIn_cases letterVariants (Char.ofNat (lowerIn lowerRuns c.toNat)).toNat with
      same | ⟨v, hv, -, changed⟩
    · rw [same] at variant
      exact inRanges_of_lowerIn (inRanges_of_ofNat variant)
    · rw [changed, solid v hv] at variant
      cases variant

theorem isBlank_of_sameLetter {a b : Char} (h : sameLetter a b) (hb : isBlank b) : isBlank a := by
  have own : isBlank (letterClass b) :=
    forall_of_inRanges (p := fun b => isBlank (letterClass b)) (by decide +kernel) hb
  exact isBlank_of_letterClass (sameLetter_iff.1 h ▸ own)

namespace Spells

variable {name spelled : Text}

theorem refl (t : Text) : Spells t t := ⟨rfl, isPrefixNoCase_of_start List.prefix_rfl⟩

theorem symm (h : Spells name spelled) : Spells spelled name :=
  ⟨h.length_eq.symm, isPrefixNoCase_of_length_le (isPrefixNoCase_of_start List.prefix_rfl) h.same
    h.length_eq.le⟩

theorem trans {other : Text} (h : Spells name spelled) (h' : Spells spelled other) :
    Spells name other :=
  ⟨h'.length_eq.trans h.length_eq, isPrefixNoCase_of_length_le h.same h'.symm.same
    (h'.length_eq.trans h.length_eq).ge⟩

theorem of_isPrefixNoCase (h : isPrefixNoCase name spelled) (long : spelled.length ≤ name.length) :
    Spells name spelled := by
  have taken := Spells.take h
  rwa [List.take_of_length_le long] at taken

theorem eq_nil (h : Spells [] spelled) : spelled = [] := List.length_eq_zero_iff.1 h.length_eq

end Spells

theorem joinsPrevious_of_isBlank {c : Char} (h : isBlank c) : joinsPrevious c = false := by
  by_contra joins
  rcases Bool.or_eq_true_iff.1 (Bool.not_eq_false _ ▸ joins) with joins | percent
  · rw [Length.not_isBlank_of_joinsNext joins] at h
    cases h
  · rw [beq_iff_eq.1 percent] at h
    exact absurd h (by decide)

theorem not_joinsPrevious_append {s blanks : Text} (hb : ∀ c ∈ blanks, isBlank c) :
    nextIs joinsPrevious (s ++ blanks) = nextIs joinsPrevious s := by
  cases s with
  | cons c s => rfl
  | nil =>
      cases blanks with
      | nil => rfl
      | cons c blanks => exact joinsPrevious_of_isBlank (hb c List.mem_cons_self)

theorem length_le {p : Text} (h : isPrefixNoCase p t) : p.length ≤ t.length := by
  induction p generalizing t with
  | nil => exact Nat.zero_le _
  | cons a p ih =>
      cases t with
      | nil => cases h
      | cons c t => exact Nat.succ_le_succ (ih (Bool.and_eq_true_iff.1 h).2)

theorem isPrefixNoCase_append {p rest : Text} (h : p.length ≤ t.length) :
    isPrefixNoCase p (t ++ rest) = isPrefixNoCase p t := by
  induction p generalizing t with
  | nil => rfl
  | cons a p ih =>
      cases t with
      | nil => cases h
      | cons c t =>
          rw [List.cons_append, isPrefixNoCase, isPrefixNoCase, ih (Nat.le_of_succ_le_succ h)]

section Blanks

variable {blanks : Text} (hb : ∀ c ∈ blanks, isBlank c)
include hb

/-- A literal without a blank at its end is found where it is in front of blanks. -/
theorem length_le_of_isPrefixNoCase (last : ∀ c ∈ literal.getLast?, isBlank c = false)
    (h : isPrefixNoCase literal (t ++ blanks)) : literal.length ≤ t.length := by
  by_contra long
  obtain ⟨front, c, rfl⟩ := List.eq_nil_or_concat literal |>.resolve_left (by
    rintro rfl
    exact long (Nat.zero_le _))
  rw [List.concat_eq_append] at last h long
  have past : t.length ≤ front.length := by simpa [Nat.lt_succ_iff] using long
  have final := isPrefixNoCase_drop h front.length
  rw [List.drop_left, List.drop_append, List.drop_of_length_le past, List.nil_append] at final
  cases rest : blanks.drop (front.length - t.length) with
  | nil =>
      rw [rest] at final
      cases final
  | cons d rest' =>
      rw [rest, isPrefixNoCase, Bool.and_eq_true] at final
      have blank := hb d (List.mem_of_mem_drop (rest ▸ List.mem_cons_self))
      have solid := last c (by simp)
      rw [isBlank_of_sameLetter final.1 blank] at solid
      cases solid

theorem isPrefixNoCase_append_blanks_iff (last : ∀ c ∈ literal.getLast?, isBlank c = false) :
    isPrefixNoCase literal (t ++ blanks) ↔ isPrefixNoCase literal t := by
  constructor
  · intro h
    rwa [isPrefixNoCase_append (length_le_of_isPrefixNoCase hb last h)] at h
  · intro h
    rwa [isPrefixNoCase_append (length_le h)]

/-- Blanks at the end of a text do not matter to where a literal stands alone. -/
theorem lone_append_blanks_iff (solid : IsSolid literal) :
    Lone .anyCase literal (t ++ blanks) ↔ Lone .anyCase literal t := by
  constructor
  · rintro ⟨front, back, text, alone⟩
    rcases List.append_eq_append_iff.1 text with ⟨rest, -, rfl⟩ | ⟨rest, rfl, rfl⟩
    · -- A literal does not start with a blank.
      exfalso
      obtain ⟨a, literal, rfl⟩ := List.exists_cons_of_ne_nil solid.ne_nil
      have found : isPrefixNoCase (a :: literal) back := alone.found
      cases back with
      | nil => cases found
      | cons c back =>
          rw [isPrefixNoCase, Bool.and_eq_true] at found
          have blank := isBlank_of_sameLetter found.1 (hb c (by simp))
          rw [solid.head a rfl] at blank
          cases blank
    · have found : isPrefixNoCase literal (rest ++ blanks) := alone.found
      have fits := length_le_of_isPrefixNoCase hb solid.last found
      have after := alone.back
      rw [List.drop_append_of_le_length fits, not_joinsPrevious_append hb] at after
      exact ⟨front, rest, rfl, (isPrefixNoCase_append_blanks_iff hb solid.last).1 found,
        alone.front, after⟩
  · rintro ⟨front, back, rfl, alone⟩
    have found : isPrefixNoCase literal back := alone.found
    refine ⟨front, back ++ blanks, List.append_assoc _ _ _,
      (isPrefixNoCase_append_blanks_iff hb solid.last).2 found, alone.front, ?_⟩
    rw [List.drop_append_of_le_length (length_le found), not_joinsPrevious_append hb]
    exact alone.back

end Blanks

/-- A text that is no longer than a literal has no place for it but as a whole. -/
theorem lone_iff_spells (long : t.length ≤ literal.length) :
    Lone .anyCase literal t ↔ Spells literal t := by
  constructor
  · rintro ⟨front, back, rfl, alone⟩
    have found : isPrefixNoCase literal back := alone.found
    have fits := length_le found
    rw [List.length_append] at long
    obtain rfl : front = [] := List.length_eq_zero_iff.1 (by omega)
    exact .of_isPrefixNoCase found (by simpa using long)
  · intro h
    refine ⟨[], t, rfl, h.same, rfl, ?_⟩
    rw [← h.length_eq, List.drop_length]
    rfl

/-- A value that is a literal up to letter case is replaced, and the blanks after it stay. -/
theorem replaceLone_of_spells (solid : IsSolid literal) (h : Spells literal t) {blanks : Text}
    (hb : ∀ c ∈ blanks, isBlank c) :
    replaceLone .anyCase literal new (t ++ blanks) = new ++ blanks := by
  have filled : literal.isEmpty = false := List.isEmpty_eq_false_iff.2 solid.ne_nil
  rw [replaceLone, filled, if_neg Bool.false_ne_true]
  change replaceFrom _ new none 0 (t ++ blanks) = _
  have first : loneToken .anyCase literal none (t ++ blanks) = some t.length := by
    refine loneToken_eq_some_iff.2 ⟨⟨h.isPrefixNoCase_append blanks, rfl, ?_⟩, h.length_eq⟩
    rw [← h.length_eq, List.drop_left]
    exact not_joinsPrevious_append (s := []) hb
  cases t with
  | nil => exact absurd h.symm.eq_nil solid.ne_nil
  | cons c t =>
      rw [List.cons_append] at first ⊢
      rw [replaceFrom_token first, replaceFrom_skip_append, replaceFrom_of_none]
      intro front back n hne text found
      obtain ⟨a, literal, rfl⟩ := List.exists_cons_of_ne_nil solid.ne_nil
      obtain ⟨d, back, rfl⟩ := List.exists_cons_of_ne_nil hne
      have start : isPrefixNoCase (a :: literal) (d :: back) :=
        (loneToken_eq_some_iff.1 found).1.found
      rw [isPrefixNoCase, Bool.and_eq_true] at start
      have blank := isBlank_of_sameLetter start.1 (hb d (by simp [text]))
      rw [solid.head a rfl] at blank
      cases blank

end Text

open Text

/-! ### References -/

/-- The parts of a reference that stand alone in it. -/
def TokenName.loneParts (name : Text) : List Text :=
  ["var".toList, opening ++ name, reference name, name, name ++ [')']]

section Reference

variable {literal name : Text} (hv : TokenName.Valid name)
include hv

/-- Only a whole name, with or without the parenthesis after it, ends where no literal goes on. -/
theorem TokenName.Valid.length_cases {n : Nat} (short : n ≤ (name ++ [')']).length)
    (h : nextIs joinsPrevious ((name ++ [')']).drop n) = false) :
    n = name.length ∨ n = (name ++ [')']).length := by
  by_contra other
  rw [not_or, List.length_append, List.length_singleton] at other
  rw [List.length_append, List.length_singleton] at short
  have inside : n < name.length := by omega
  rw [List.drop_append_of_le_length inside.le, List.drop_eq_getElem_cons inside] at h
  have joins := joinsNext_of_isPart (hv.parts _ (List.getElem_mem inside))
  rw [List.cons_append, nextIs, joinsPrevious, joins] at h
  cases h

theorem lone_of_mem_loneParts {part : Text} (hp : part ∈ TokenName.loneParts name)
    (h : Spells literal part) : Lone .anyCase literal (reference name) := by
  have at_place (front rest : Text) (text : reference name = front ++ (part ++ rest))
      (before : front.getLast?.any Length.joinsNext = false)
      (after : nextIs joinsPrevious rest = false) : Lone .anyCase literal (reference name) := by
    refine ⟨front, part ++ rest, text, h.isPrefixNoCase_append rest, before, ?_⟩
    rwa [← h.length_eq, List.drop_left]
  simp only [TokenName.loneParts, List.mem_cons, List.not_mem_nil, or_false] at hp
  rcases hp with rfl | rfl | rfl | rfl | rfl
  · have after : joinsPrevious '(' = false := by decide
    exact at_place [] ('(' :: (name ++ [')'])) rfl rfl after
  · exact at_place [] [')'] (by simp [reference, opening]) rfl (by decide)
  · exact at_place [] [] (by simp) rfl rfl
  · exact at_place opening [')'] (by simp [reference, opening]) (by decide)
      (by decide)
  · exact at_place opening [] (by simp [reference, opening]) (by decide) rfl

/-- What stands alone at the start of a reference ends behind its first word or its name. -/
theorem take_mem_loneParts (h : LoneAt .anyCase literal none (reference name)) (hne : literal ≠ []) :
    (reference name).take literal.length ∈ TokenName.loneParts name := by
  have fits := length_le h.found
  have after := h.back
  have split : reference name = opening ++ (name ++ [')']) := by simp [reference, opening]
  rw [split] at fits after ⊢
  by_cases long : opening.length ≤ literal.length
  · obtain ⟨n, length⟩ := Nat.exists_eq_add_of_le long
    rw [length, List.drop_append, List.drop_of_length_le (Nat.le_add_right _ _), List.nil_append,
      Nat.add_sub_cancel_left] at after
    rw [length, List.length_append] at fits
    rw [length, List.take_length_add_append]
    rcases hv.length_cases (by omega) after with rfl | rfl
    · simp [TokenName.loneParts]
    · simp [TokenName.loneParts, reference, opening]
  · have positive := List.length_pos_of_ne_nil hne
    have three : literal.length < 4 := by simpa [opening] using long
    obtain one | two | three : literal.length = 1 ∨ literal.length = 2 ∨ literal.length = 3 := by
      omega
    · rw [one] at after
      have next : joinsPrevious 'a' = false := after
      exact absurd next (by decide)
    · rw [two] at after
      have next : joinsPrevious 'r' = false := after
      exact absurd next (by decide)
    · rw [three]
      simp [TokenName.loneParts, opening]

/-- What stands alone in a reference is one of five parts of it. -/
theorem lone_reference_iff (hne : literal ≠ []) : Lone .anyCase literal (reference name) ↔
    ∃ part ∈ TokenName.loneParts name, Spells literal part := by
  refine ⟨?_, fun ⟨part, hp, h⟩ => lone_of_mem_loneParts hv hp h⟩
  rintro ⟨front, back, text, alone⟩
  have found : isPrefixNoCase literal back := alone.found
  have fits := length_le found
  suffices part : back.take literal.length ∈ TokenName.loneParts name from ⟨_, part, .take found⟩
  have back_ne : back ≠ [] := by
    rintro rfl
    exact hne (List.length_eq_zero_iff.1 (Nat.le_zero.1 fits))
  by_cases start : front = []
  · subst start
    obtain rfl : reference name = back := text
    exact take_mem_loneParts hv alone hne
  · rcases joinsNext_or_eq_opening start back_ne text hv with ⟨c, last, joins⟩ | ⟨rfl, rfl⟩
    · have before := alone.front
      rw [last, Option.any_some, joins] at before
      cases before
    · rcases hv.length_cases fits alone.back with length | length
      · simp [length, TokenName.loneParts]
      · simp [length, TokenName.loneParts]

end Reference

end DesignTokens
