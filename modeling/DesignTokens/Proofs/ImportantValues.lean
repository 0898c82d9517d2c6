import DesignTokens.Proofs.ConfinedColors
import DesignTokens.Proofs.DeclarationPlaces
import DesignTokens.Proofs.LiteralShapes

/-!
Values with a priority flag at their end. No reference ends with a flag, so a value with references
in the place of some of its parts ends with one only if it did before. A flag that a value ends with
is kept where no literal that is replaced reaches into it: lengths, durations, easings and colors do
not.
-/
namespace DesignTokens

open Text

namespace Value

/-- The priority flag of a declaration. -/
def flag : Text := "!important".toList

/-- A value that ends with the flag. -/
def IsImportant (v : Text) : Prop := flag <:+ trim v

instance : DecidablePred IsImportant := fun v => inferInstanceAs (Decidable (flag <:+ trim v))

/-- The flag and the blanks after it. -/
def IsFlag (tail : Text) : Prop := ∃ blanks, tail = flag ++ blanks ∧ ∀ c ∈ blanks, isBlank c

theorem flag_solid : ∀ c ∈ flag, isBlank c = false := List.forall_iff_forall_mem.1 (by decide)

namespace IsFlag

variable {tail : Text} (h : IsFlag tail)
include h

theorem notMem {c : Char} (hc : c ∉ flag) (hb : isBlank c = false) : c ∉ tail := by
  obtain ⟨blanks, rfl, blank⟩ := h
  intro mem
  rcases List.mem_append.1 mem with inside | after
  · exact hc inside
  · simp [blank c after] at hb

theorem exists_cons : ∃ rest, tail = '!' :: rest := by
  obtain ⟨blanks, rfl, -⟩ := h
  exact ⟨_, rfl⟩

theorem ne_nil : tail ≠ [] := by
  obtain ⟨rest, rfl⟩ := h.exists_cons
  simp

end IsFlag

theorem IsFlag.trim_append {front tail : Text} (hf : IsFlag tail)
    (first : nextIs isBlank front = false) : trim (front ++ tail) = front ++ flag := by
  obtain ⟨blanks, rfl, hb⟩ := hf
  cases front with
  | nil => exact trim_append_of_solid flag_solid hb
  | cons c front =>
      have last : ((c :: front) ++ flag).getLast?.any isBlank = false := by
        rw [List.getLast?_append_of_ne_nil _ (by decide)]
        decide
      rw [← List.append_assoc]
      exact @trim_append_blanks (c :: front ++ flag) blanks first last hb

theorem isImportant_iff {v : Text} :
    IsImportant v ↔ ∃ front tail, v = front ++ tail ∧ IsFlag tail := by
  constructor
  · rintro ⟨front, ending⟩
    obtain ⟨a, b, text, -, hb⟩ := exists_trim v
    refine ⟨a ++ front, flag ++ b, ?_, b, rfl, hb⟩
    rw [text, ← ending]
    simp
  · rintro ⟨front, tail, rfl, hf⟩
    induction front with
    | nil =>
        rw [IsImportant, hf.trim_append rfl]
        exact List.suffix_append _ _
    | cons c front ih =>
        cases hc : isBlank c with
        | true =>
            rw [IsImportant, List.cons_append, trim_cons_of_blank hc]
            exact ih
        | false =>
            rw [IsImportant, @IsFlag.trim_append (c :: front) tail hf hc]
            exact List.suffix_append _ _

theorem isImportant_trim {v : Text} : IsImportant (trim v) ↔ IsImportant v := by
  constructor
  · intro h
    obtain ⟨front, tail, ending, blanks, rfl, hb⟩ := isImportant_iff.1 h
    obtain ⟨a, b, text, -, hb'⟩ := exists_trim v
    refine isImportant_iff.2 ⟨a ++ front, flag ++ (blanks ++ b), ?_, blanks ++ b, rfl,
      List.forall_mem_append.2 ⟨hb, hb'⟩⟩
    rw [text, ending]
    simp
  · rintro ⟨front, ending⟩
    exact isImportant_iff.2 ⟨front, flag, ending.symm, [], by simp, by simp⟩

theorem isImportant_valueOf {raw : Text} : IsImportant (Block.valueOf raw) ↔ IsImportant raw := by
  rw [IsImportant, Block.trim_valueOf, IsImportant]

/-- The flag of a declaration is that of its value. -/
theorem isImportant_append_cons {before raw : Text} :
    IsImportant (before ++ ':' :: raw) ↔ IsImportant raw := by
  rw [isImportant_iff, isImportant_iff]
  constructor
  · rintro ⟨front, tail, text, hf⟩
    have colon : ':' ∉ tail := hf.notMem (by decide) (by decide)
    rcases List.append_eq_append_iff.1 text with ⟨rest, rfl, ending⟩ | ⟨rest, rfl, rfl⟩
    · cases rest with
      | nil =>
          have first : ':' ∈ [] ++ tail := ending ▸ List.mem_cons_self
          exact absurd first colon
      | cons c rest => exact ⟨rest, tail, (List.cons.inj ending).2, hf⟩
    · simp at colon
  · rintro ⟨front, tail, rfl, hf⟩
    exact ⟨before ++ ':' :: front, tail, by simp, hf⟩

end Value

open Value

/-- A flag after a reference is after all of it. -/
theorem Value.IsFlag.exists_rest {front tail name t : Text} (hf : IsFlag tail)
    (text : front ++ tail = reference name ++ t) :
    ∃ rest, front = reference name ++ rest ∧ rest ++ tail = t := by
  rcases List.append_eq_append_iff.1 text with ⟨rest, whole, ending⟩ | ⟨rest, rfl, ending⟩
  · rcases List.eq_nil_or_concat rest with rfl | ⟨rest, c, rfl⟩
    · exact ⟨[], by simpa using whole.symm, by simpa using ending⟩
    · have last := congrArg List.getLast? whole
      rw [reference, List.getLast?_concat, List.concat_eq_append, ← List.append_assoc,
        List.getLast?_concat] at last
      have close : ')' ∈ tail := by simp [ending, ← Option.some.inj last]
      exact absurd close (hf.notMem (by decide) (by decide))
  · exact ⟨rest, rfl, ending.symm⟩

/-! ### Flags that were there before -/

namespace Inserted

variable {names : List Text} {t u : Text}

/-- A word with blanks after it has no place for a reference or for blanks. -/
theorem eq_of_flat (h : Inserted names t u) {word blanks : Text} (hu : u = word ++ blanks)
    (solid : ∀ c ∈ word, isBlank c = false) (flat : ')' ∉ word) (hb : ∀ c ∈ blanks, isBlank c) :
    t = u := by
  induction h generalizing word blanks with
  | nil => rfl
  | char c h ih =>
      cases word with
      | nil =>
          subst hu
          rw [@ih [] _ rfl (by simp) (by simp) fun d hd => hb d (by simp [hd])]
      | cons d word =>
          obtain ⟨-, rest⟩ := List.cons.inj hu
          rw [ih rest (fun e he => solid e (by simp [he])) (fun he => flat (by simp [he])) hb]
  | @token part name t u hname h ih =>
      have close : ')' ∈ word ++ blanks := by simp [← hu, reference]
      rcases List.mem_append.1 close with inside | after
      · exact absurd inside flat
      · exact absurd (hb _ after) (by decide)
  | @blank part c t u hc h ih =>
      cases word with
      | nil =>
          subst hu
          simp [hb c (by simp)] at hc
      | cons d word =>
          obtain ⟨rfl, -⟩ := List.cons.inj hu
          exact absurd (solid ' ' (by simp)) (by decide)

theorem exists_front {front tail : Text} (h : Inserted names t (front ++ tail)) (hf : IsFlag tail) :
    ∃ front', t = front' ++ tail := by
  generalize hu : front ++ tail = u at h
  have copied {t u : Text} (h : Inserted names t u) (hu : tail = u) :
      ∃ front', t = front' ++ tail := by
    obtain ⟨blanks, text, hb⟩ := hf
    exact ⟨[], (h.eq_of_flat (hu.symm.trans text) flag_solid (by decide) hb).trans hu.symm⟩
  induction h generalizing front with
  | nil => exact copied .nil (List.append_eq_nil_iff.1 hu).2
  | char c h ih =>
      cases front with
      | nil => exact copied (.char c h) hu
      | cons d front =>
          obtain ⟨rfl, rest⟩ := List.cons.inj hu
          obtain ⟨front', rfl⟩ := ih rest
          exact ⟨d :: front', rfl⟩
  | @token part name t u hname h ih =>
      obtain ⟨rest, -, ending⟩ := hf.exists_rest hu
      obtain ⟨front', rfl⟩ := ih ending
      exact ⟨part ++ front', by simp⟩
  | @blank part c t u hc h ih =>
      cases front with
      | nil =>
          obtain ⟨rest, rfl⟩ := hf.exists_cons
          cases (List.cons.inj hu).1
      | cons d front =>
          obtain ⟨front', rfl⟩ := ih (List.cons.inj hu).2
          exact ⟨part ++ front', by simp⟩

/-- A flag at the end is one that was there before. -/
theorem isImportant (h : Inserted names t u) (hu : IsImportant u) : IsImportant t := by
  obtain ⟨front, tail, rfl, hf⟩ := isImportant_iff.1 hu
  obtain ⟨front', rfl⟩ := h.exists_front hf
  exact isImportant_iff.2 ⟨front', tail, rfl, hf⟩

end Inserted

theorem Insertions.isImportant {names : List Text} {v w : Text} (h : Insertions names v w)
    (hw : IsImportant w) : IsImportant v :=
  not_imp_not.1 (h.lift fun _ _ step => mt step.isImportant) hw

theorem not_isImportant_reference (name : Text) : ¬ IsImportant (reference name) := by
  intro important
  have whole : Inserted [name] [] (reference name) := .whole [] (by simp)
  exact absurd (whole.isImportant important) (by decide)

/-! ### Flags that are kept -/

namespace Text

/-- No occurrence of a part reaches into the end of a text. -/
structure Clear (part tail : Text) : Prop where
  before : ∀ q, q ≠ [] → q <:+ part → ¬ q <+: tail
  inside : ¬ part <:+: tail

variable {f : Text → Text} {ps : List Piece} {front tail : Text}

theorem flatMap_mapToken_of_inside (h : ∀ token ∈ ps.filterMap Piece.token?, ¬ token <:+: tail)
    (text : ps.flatMap Piece.text = tail) : ps.flatMap (Piece.mapToken f) = tail := by
  induction ps generalizing tail with
  | nil => exact text
  | cons piece ps ih =>
      cases piece with
      | plain c =>
          subst text
          have rest := @ih (ps.flatMap Piece.text)
            (fun token ht inside => h token ht (inside.trans (List.suffix_cons c _).isInfix)) rfl
          exact congrArg (c :: ·) rest
      | token part =>
          refine absurd ?_ (h part (by simp [Piece.token?]))
          rw [← text]
          exact (List.prefix_append part _).isInfix

theorem exists_front_mapToken (h : ∀ token ∈ ps.filterMap Piece.token?, Clear token tail)
    (text : ps.flatMap Piece.text = front ++ tail) :
    ∃ front', ps.flatMap (Piece.mapToken f) = front' ++ tail := by
  induction ps generalizing front with
  | nil => exact ⟨front, text⟩
  | cons piece ps ih =>
      cases piece with
      | plain c =>
          cases front with
          | nil => exact ⟨[], flatMap_mapToken_of_inside (fun token ht => (h token ht).inside) text⟩
          | cons d front =>
              obtain ⟨front', same⟩ := ih h (List.cons.inj text).2
              exact ⟨c :: front', congrArg (c :: ·) same⟩
      | token part =>
          have clear : Clear part tail := h part (by simp [Piece.token?])
          have others : ∀ token ∈ ps.filterMap Piece.token?, Clear token tail :=
            fun token ht => h token (by simp_all [Piece.token?])
          have more {front : Text} (text : ps.flatMap Piece.text = front ++ tail) :
              ∃ front', (Piece.token part :: ps).flatMap (Piece.mapToken f) = front' ++ tail := by
            obtain ⟨front', same⟩ := ih others text
            exact ⟨f part ++ front', by simp [Piece.mapToken, same]⟩
          rcases List.append_eq_append_iff.1 text with ⟨rest, rfl, ending⟩ | ⟨rest, part_eq, ending⟩
          · exact more ending
          · cases rest with
            | nil => exact @more [] ending.symm
            | cons c rest =>
                have last : c :: rest <:+ part := ⟨front, part_eq.symm⟩
                exact absurd ⟨_, ending.symm⟩ (clear.before (c :: rest) (by simp) last)

/-- A literal that reaches into no flag. -/
def ClearOfFlag (literal : Text) : Prop := ∀ tail, IsFlag tail → Clear literal tail

namespace ClearOfFlag

variable {literal new v : Text}

theorem ne_nil (h : ClearOfFlag literal) : literal ≠ [] := by
  rintro rfl
  exact (h flag ⟨[], by simp⟩).inside List.nil_infix

/-- What has no exclamation mark, but a character that is not in flags. -/
theorem of_notMem {c : Char} (hc : c ∈ literal) (other : c ∉ flag) (solid : isBlank c = false)
    (h : '!' ∉ literal) : ClearOfFlag literal := by
  intro tail hf
  constructor
  · intro q hq ending start
    obtain ⟨d, q, rfl⟩ := List.exists_cons_of_ne_nil hq
    obtain ⟨rest, rfl⟩ := hf.exists_cons
    obtain ⟨rfl, -⟩ := List.cons_prefix_cons.1 start
    exact h (ending.subset List.mem_cons_self)
  · exact fun inside => hf.notMem other solid (inside.subset hc)

/-- What ends with a character that is not in flags. -/
theorem of_getLast? {c : Char} (hc : literal.getLast? = some c) (other : c ∉ flag)
    (solid : isBlank c = false) : ClearOfFlag literal := by
  intro tail hf
  have none := hf.notMem other solid
  constructor
  · rintro q hq ⟨front, rfl⟩ start
    rw [List.getLast?_append_of_ne_nil _ hq] at hc
    exact none (start.subset (List.mem_of_getLast? hc))
  · exact fun inside => none (inside.subset (List.mem_of_getLast? hc))

/-- A flag is kept where all tokens that are replaced are the literal. -/
theorem isImportant_mapTokens {r : Recognizer} (h : ClearOfFlag literal)
    (hr : ∀ before t n, r before t = some n → literal.isPrefixOf t ∧ n = literal.length)
    (f : Text → Text) (hv : IsImportant v) : IsImportant (mapTokens r f v) := by
  obtain ⟨front, tail, text, hf⟩ := isImportant_iff.1 hv
  have clear : ∀ token ∈ tokens r v, Clear token tail := by
    intro token ht
    obtain ⟨before, u, n, -, -, found, rfl⟩ := exists_of_mem_tokens ht
    obtain ⟨start, length⟩ := hr _ _ _ found
    rw [length, ← List.prefix_iff_eq_take.1 (List.isPrefixOf_iff_prefix.1 start)]
    exact h tail hf
  obtain ⟨front', same⟩ := @exists_front_mapToken f _ _ _ clear ((pieces_text r v).trans text)
  exact isImportant_iff.2 ⟨front', tail, same, hf⟩

theorem isImportant_replaceAll (h : ClearOfFlag literal) (hv : IsImportant v) :
    IsImportant (replaceAll literal new v) := by
  rw [replaceAll, if_neg (by simpa using h.ne_nil)]
  refine h.isImportant_mapTokens (fun before t n found => ?_) _ hv
  rw [literalToken] at found
  split at found
  · exact ⟨‹_›, (Option.some.inj found).symm⟩
  · cases found

theorem isImportant_replaceLone (h : ClearOfFlag literal) (hv : IsImportant v) :
    IsImportant (replaceLone .exact literal new v) := by
  rw [replaceLone, if_neg (by simpa using h.ne_nil)]
  refine h.isImportant_mapTokens (fun before t n found => ?_) _ hv
  rw [loneToken] at found
  split at found
  · rename_i alone
    simp only [Bool.and_eq_true] at alone
    exact ⟨alone.1.1, (Option.some.inj found).symm⟩
  · cases found

end ClearOfFlag

end Text

/-! ### Flags that are taken -/

namespace Text

variable {name v literal : Text} {spelling : Spelling}

/-- A text without references in it has no token. -/
theorem flatMap_mapToken_of_notMem {ps : List Piece}
    (h : ')' ∉ ps.flatMap (Piece.mapToken fun _ => reference name)) :
    ps.flatMap Piece.text = ps.flatMap (Piece.mapToken fun _ => reference name) ∧
      ps.filterMap Piece.token? = [] := by
  induction ps with
  | nil => exact ⟨rfl, rfl⟩
  | cons piece ps ih =>
      obtain ⟨text, none⟩ := ih fun close => h (by simp [close])
      cases piece with
      | plain c => exact ⟨congrArg (c :: ·) text, none⟩
      | token part => exact absurd (by simp [Piece.mapToken, reference]) h

/-- Where a flag is left, all tokens that have become references are in front of it. -/
theorem exists_front_of_mapToken {ps : List Piece} {front tail : Text}
    (text : ps.flatMap (Piece.mapToken fun _ => reference name) = front ++ tail)
    (hf : IsFlag tail) : ∃ front', ps.flatMap Piece.text = front' ++ tail ∧
      ∀ token ∈ ps.filterMap Piece.token?, token.length ≤ front'.length := by
  induction ps generalizing front with
  | nil => exact ⟨front, text, by simp⟩
  | cons piece ps ih =>
      cases piece with
      | plain c =>
          cases front with
          | nil =>
              rw [List.nil_append] at text
              have flat : ')' ∉ tail := hf.notMem (by decide) (by decide)
              obtain ⟨copied, none⟩ := flatMap_mapToken_of_notMem (text ▸ flat)
              exact ⟨[], copied.trans text, by simp [none]⟩
          | cons d front =>
              obtain ⟨front', rest, short⟩ := ih (List.cons.inj text).2
              exact ⟨c :: front', congrArg (c :: ·) rest,
                fun token ht => (short token ht).trans (Nat.le_succ _)⟩
      | token part =>
          obtain ⟨rest, -, ending⟩ := hf.exists_rest text.symm
          obtain ⟨front', others, short⟩ := ih ending.symm
          refine ⟨part ++ front', by simp [Piece.text, others], fun token ht => ?_⟩
          rw [List.length_append]
          rcases List.mem_cons.1 ht with rfl | ht
          · exact Nat.le_add_right _ _
          · exact (short token ht).trans (Nat.le_add_left _ _)

/-- A literal as long as a value has become no reference in it where the flag of the value is left.
-/
theorem tokens_eq_nil_of_isImportant (first : nextIs isBlank v = false)
    (long : (trim v).length ≤ literal.length)
    (h : IsImportant (mapTokens (loneToken .anyCase literal) (fun _ => reference name) v)) :
    tokens (loneToken .anyCase literal) v = [] := by
  obtain ⟨front, tail, text, hf⟩ := isImportant_iff.1 h
  obtain ⟨front', value, short⟩ := exists_front_of_mapToken text hf
  rw [pieces_text] at value
  have solid : nextIs isBlank front' = false := by
    cases front' with
    | nil => rfl
    | cons c front' => rwa [value] at first
  rw [value, hf.trim_append solid, List.length_append] at long
  rw [List.eq_nil_iff_forall_not_mem]
  intro token ht
  have inside := short token ht
  obtain ⟨before, u, n, -, -, found, rfl⟩ := exists_of_mem_tokens ht
  rw [loneToken] at found
  split at found
  · rename_i alone
    simp only [Bool.and_eq_true] at alone
    rw [← Option.some.inj found, (Spells.take alone.1.1).length_eq] at inside
    have positive : 0 < flag.length := by decide
    omega
  · cases found

/-- A value is found in itself, whatever its letter case. -/
theorem tokens_ne_nil (first : nextIs isBlank v = false) (hv : trim v ≠ []) :
    tokens (loneToken .anyCase (trim v)) v ≠ [] := by
  obtain ⟨a, b, text, ha, hb⟩ := exists_trim v
  generalize trim v = w at text hv ⊢
  have start : a = [] := by
    cases a with
    | nil => rfl
    | cons c a =>
        have blank : isBlank c = false := by rwa [text] at first
        simp [ha c (by simp)] at blank
  have alone : nextIs joinsPrevious b = false := by
    cases b with
    | nil => rfl
    | cons c b =>
        by_contra joins
        rcases Bool.or_eq_true_iff.1 (Bool.not_eq_false _ ▸ joins) with joins | percent
        · simp [Length.not_isBlank_of_joinsNext joins] at hb
        · rw [beq_iff_eq.1 percent] at hb
          exact absurd (hb '%' (by simp)) (by decide)
  rw [start, List.nil_append] at text
  have found : loneToken .anyCase w none v = some w.length := by
    have same : isPrefixNoCase w v := isPrefixNoCase_of_start ⟨b, text.symm⟩
    rw [loneToken, text, List.drop_left, alone, ← text]
    simp [Spelling.matches, same]
  obtain ⟨c, w, rfl⟩ := List.exists_cons_of_ne_nil hv
  rw [text, List.cons_append] at found ⊢
  rw [tokens, pieces, piecesFrom, found]
  simp [Piece.token?]

/-- A value that is important becomes a reference as a whole, with its flag. -/
theorem not_isImportant_replaceLone (first : nextIs isBlank v = false) (hv : trim v ≠ []) :
    ¬ IsImportant (replaceLone .anyCase (trim v) (reference name) v) := by
  rw [replaceLone, if_neg (by simpa using hv)]
  exact fun h => tokens_ne_nil first hv (tokens_eq_nil_of_isImportant first le_rfl h)

/-- A literal as long as a value leaves it where it leaves its flag. -/
theorem replaceLone_of_isImportant (first : nextIs isBlank v = false)
    (hv : trim v ≠ []) (long : (trim v).length ≤ literal.length)
    (h : IsImportant (replaceLone .anyCase literal (reference name) v)) :
    replaceLone .anyCase literal (reference name) v = v := by
  have hl : literal ≠ [] := List.ne_nil_of_length_pos ((List.length_pos_of_ne_nil hv).trans_le long)
  rw [replaceLone, if_neg (by simpa using hl)] at h ⊢
  have none := tokens_eq_nil_of_isImportant first long h
  rw [tokens] at none
  exact flatMap_mapToken_of_inside (by simp [none]) (pieces_text _ v)

end Text

/-! ### Literals that reach into no flag -/

theorem Numeral.IsWritten.exists_digit {n : Numeral} (h : n.IsWritten) :
    ∃ c ∈ n.text, Text.isDigit c := by
  obtain ⟨negative, whole, fraction⟩ := n
  cases fraction with
  | none =>
      obtain ⟨c, rest, rfl⟩ := List.exists_cons_of_ne_nil (h.written rfl)
      exact ⟨c, by simp [text_eq, size], h.whole c List.mem_cons_self⟩
  | some digits =>
      obtain ⟨hne, hd⟩ := h.fraction digits rfl
      obtain ⟨c, rest, rfl⟩ := List.exists_cons_of_ne_nil hne
      exact ⟨c, by simp [text_eq, size], hd c List.mem_cons_self⟩

namespace Text.ClearOfFlag

theorem of_written {n : Numeral} (hn : n.IsWritten) {unit : Text} (h : '!' ∉ unit) :
    ClearOfFlag (n.text ++ unit) := by
  obtain ⟨c, hc, digit⟩ := hn.exists_digit
  have letters : ∀ c ∈ flag, isDigit c = false := List.forall_iff_forall_mem.1 (by decide)
  refine of_notMem (List.mem_append_left unit hc) (fun mem => ?_) ?_ fun mem => ?_
  · simp [letters c mem] at digit
  · exact Block.not_isBlank_of_isNameChar (by simp [Block.isNameChar, isWord_of_isDigit digit])
  · rcases List.mem_append.1 mem with inside | inside
    · rcases hn.mem_text_cases _ inside with digit | other | other
      · exact absurd digit (by decide)
      · cases other
      · cases other
    · exact h inside

theorem of_length {v literal : Text} (h : literal ∈ Length.literals v) : ClearOfFlag literal := by
  obtain ⟨n, unit, hu, written, rfl⟩ := Length.exists_of_mem_literals h
  have plain : ∀ unit ∈ [LengthUnit.px, .rem, .em, .percent, .vh, .vw], '!' ∉ unit.name := by decide
  exact of_written written (plain unit hu)

theorem of_duration {v literal : Text} (h : literal ∈ Duration.literals v) :
    ClearOfFlag literal := by
  obtain ⟨n, unit, hu, written, rfl⟩ := Duration.exists_of_mem_literals h
  have plain : ∀ unit ∈ Duration.unitNames, '!' ∉ unit := by decide
  exact of_written written (plain unit hu)

theorem of_call (front : Text) : ClearOfFlag (front ++ [')']) :=
  of_getLast? List.getLast?_concat (by decide) rfl

theorem of_easing {v literal : Text} (h : literal ∈ Easing.literals v) : ClearOfFlag literal := by
  rcases Easing.eq_of_mem_literals h with keyword | ⟨head, -, args, -, rfl⟩
  · have letters : ∀ k ∈ Easing.keywords, 'e' ∈ k ∧ '!' ∉ k := by decide
    exact of_notMem (letters literal keyword).1 (by decide) rfl (letters literal keyword).2
  · exact of_call _

theorem of_color {v literal : Text} (h : literal ∈ Color.literals v) : ClearOfFlag literal := by
  rcases Color.eq_of_mem_literals h with ⟨digits, rfl, hex⟩ | ⟨head, -, args, -, rfl⟩
  · refine @of_notMem _ '#' (by simp) (by decide) rfl fun mem => ?_
    rcases List.mem_cons.1 mem with same | digit
    · cases same
    · exact absurd (hex _ digit) (by decide)
  · exact of_call _

end Text.ClearOfFlag

theorem Candidates.Finds.clearOfFlag {d : Declaration} {c : Category} {literal : Text}
    (h : Finds d c literal)
    (hc : c ∈ [Category.spacing, .borderWidths, .durations, .easings]) : ClearOfFlag literal := by
  cases h with
  | spacing hp hl => exact .of_length hl
  | borderWidth hp hl => exact .of_length (List.mem_of_head? hl)
  | duration hp hl => exact .of_duration hl
  | easing hp hl => exact .of_easing hl
  | radius | shadow | family | shorthandFamily | shorthandSize | shorthandLineHeight
  | shorthandWeight => simp at hc
  | whole hp =>
      simp only [wholeValues, List.mem_cons, Prod.mk.injEq, List.not_mem_nil, or_false] at hp hc
      grind

end DesignTokens
