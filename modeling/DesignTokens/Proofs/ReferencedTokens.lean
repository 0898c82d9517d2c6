import DesignTokens.Proofs.References

/-!
Replacement of tokens in a text with references. A text is rewritten if it is copied but for tokens
that touch no reference, which become references; such a text keeps its references. What makes a
replacement of this kind are recognizers that spare references.
-/
namespace DesignTokens

open Text

/-- No opening starts in the first characters of a text. -/
def ClosedFor (n : Nat) (t : Text) : Prop := ∀ i < n, ¬ opening <+: t.drop i

/-- The first text with references in the place of some of its tokens. -/
inductive Rewrites (names : List Text) : Text → Text → Prop
  | nil : Rewrites names [] []
  | char {c : Char} {t u : Text} (hc : ¬ opening <+: c :: t) (h : Rewrites names t u) :
      Rewrites names (c :: t) (c :: u)
  | use {name t u : Text} (hname : name ∈ names) (h : Rewrites names t u) :
      Rewrites names (reference name ++ t) (reference name ++ u)
  | token {name t u : Text} {n : Nat} (hname : name ∈ names) (hclosed : ClosedFor n t)
      (h : Rewrites names (t.drop n) u) : Rewrites names t (reference name ++ u)

variable {names : List Text}

theorem references_drop_of_closedFor {n : Nat} {t : Text} (h : ClosedFor n t) :
    references names (t.drop n) = references names t := by
  induction n generalizing t with
  | zero => rfl
  | succ n ih =>
      cases t with
      | nil => rfl
      | cons c t =>
          have first : ¬ opening <+: c :: t := h 0 (by omega)
          rw [references_cons_of_not first]
          exact ih fun i hi => h (i + 1) (by omega)

namespace Rewrites

/-- What a rewritten text starts with was there before, unless it starts with a reference. -/
theorem prefix_of_prefix {t u : Text} (h : Rewrites names t u) {p : Text} (hp : 'v' ∉ p)
    (hu : p <+: u) : p <+: t := by
  have anew {name u t : Text} {p : Text} (hp : 'v' ∉ p) (h : p <+: reference name ++ u) :
      p <+: t := by
    rw [reference_append] at h
    cases p with
    | nil => exact List.nil_prefix
    | cons c p =>
        obtain ⟨rfl, -⟩ := List.cons_prefix_cons.1 h
        simp at hp
  induction h generalizing p with
  | nil => exact hu
  | @char c t u hc h ih =>
      cases p with
      | nil => exact List.nil_prefix
      | cons d p =>
          obtain ⟨rfl, tail⟩ := List.cons_prefix_cons.1 hu
          exact List.cons_prefix_cons.2 ⟨rfl, ih (fun hv => hp (by simp [hv])) tail⟩
  | use hname h ih => exact anew hp hu
  | token hname hclosed h ih => exact anew hp hu

variable (hn : ∀ name ∈ names, TokenName.Valid name)
include hn

theorem refl {t : Text} (h : Intact names t) : Rewrites names t t :=
  Intact.induction hn (P := fun t => Rewrites names t t) .nil (fun _ _ hc _ ih => .char hc ih)
    (fun _ _ hname _ ih => .use hname ih) h

theorem keeps {t u : Text} (h : Rewrites names t u) : Keeps names t u := by
  induction h with
  | nil => exact Keeps.refl (by simp [Intact, references])
  | @char c t u hc h ih =>
      have same : ¬ opening <+: c :: u := by
        intro hu
        obtain ⟨rfl, tail⟩ := List.cons_prefix_cons.1 hu
        exact hc (List.cons_prefix_cons.2 ⟨rfl, h.prefix_of_prefix (by decide) tail⟩)
      constructor
      · rw [Intact, references_cons_of_not same]
        exact ih.intact
      · rw [references_cons_of_not same, references_cons_of_not hc]
        exact ih.sublist
  | @use name t u hname h ih =>
      constructor
      · exact (intact_reference_append_iff hn hname u).2 ih.intact
      · rw [references_reference_append hn hname, references_reference_append hn hname]
        exact ih.sublist.cons_cons _
  | @token name t u n hname hclosed h ih =>
      constructor
      · exact (intact_reference_append_iff hn hname u).2 ih.intact
      · rw [references_reference_append hn hname, ← references_drop_of_closedFor hclosed]
        exact ih.sublist.cons _

end Rewrites

theorem getLast?_cons_or (before : Option Char) (c : Char) (s : Text) :
    (c :: s).getLast?.or before = s.getLast?.or (some c) := by
  rw [List.getLast?_cons]
  cases s.getLast? <;> rfl

/-- A recognizer that takes no token from a reference. -/
structure Spares (names : List Text) (r : Recognizer) : Prop where
  outside : ∀ before t n, r before t = some n → ClosedFor n t
  inside : ∀ name ∈ names, ∀ front back rest, front ≠ [] → back ≠ [] →
    reference name = front ++ back → r front.getLast? (back ++ rest) = none

namespace Spares

/-- The text that is put together while the tokens of a text are replaced. -/
def replaceFrom (r : Recognizer) (new : Text) (before : Option Char) (skip : Nat) (t : Text) :
    Text := (piecesFrom r before skip t).flatMap (Piece.mapToken fun _ => new)

variable {r : Recognizer} {new : Text}

theorem replaceFrom_skip (before : Option Char) (skip : Nat) (c : Char) (t : Text) :
    replaceFrom r new before (skip + 1) (c :: t) = replaceFrom r new (some c) skip t := by
  rw [replaceFrom, piecesFrom]
  rfl

theorem replaceFrom_token {before : Option Char} {c : Char} {t : Text} {n : Nat}
    (h : r before (c :: t) = some (n + 1)) :
    replaceFrom r new before 0 (c :: t) = new ++ replaceFrom r new (some c) n t := by
  rw [replaceFrom, piecesFrom, h]
  rfl

theorem replaceFrom_char {before : Option Char} {c : Char} {t : Text}
    (h : ∀ n, r before (c :: t) ≠ some (n + 1)) :
    replaceFrom r new before 0 (c :: t) = c :: replaceFrom r new (some c) 0 t := by
  rw [replaceFrom, piecesFrom]
  split
  · rename_i n hn
    exact absurd hn (h n)
  · rfl

theorem replaceFrom_append {before : Option Char} {s rest : Text}
    (h : ∀ front back n, back ≠ [] → s = front ++ back →
      r (front.getLast?.or before) (back ++ rest) ≠ some (n + 1)) :
    replaceFrom r new before 0 (s ++ rest) =
      s ++ replaceFrom r new (s.getLast?.or before) 0 rest := by
  induction s generalizing before with
  | nil => rfl
  | cons c s ih =>
      have first : ∀ n, r before (c :: (s ++ rest)) ≠ some (n + 1) :=
        fun n => h [] (c :: s) n (by simp) rfl
      rw [List.cons_append, replaceFrom_char first, getLast?_cons_or, List.cons_append, ih]
      intro front back n hne he
      rw [← getLast?_cons_or]
      exact h (c :: front) back n hne (by simp [he])

/-- A recognizer that spares references passes over them. -/
theorem replaceFrom_reference (hr : Spares names r) {name : Text} (hname : name ∈ names)
    (before : Option Char) (rest : Text) :
    replaceFrom r new before 0 (reference name ++ rest) =
      reference name ++ replaceFrom r new ((reference name).getLast?.or before) 0 rest := by
  apply replaceFrom_append
  intro front back n hne he h
  cases front with
  | nil =>
      obtain rfl : back = reference name := by simpa using he.symm
      have starts : opening <+: reference name ++ rest := by simp [reference_append, opening]
      exact hr.outside _ _ _ h 0 (by omega) starts
  | cons c front =>
      have none := hr.inside name hname _ back rest (by simp) hne he
      rw [List.getLast?_cons] at h none
      simp [none] at h

variable (hn : ∀ name ∈ names, TokenName.Valid name)
include hn

theorem rewrites_mapTokens (hr : Spares names r) {name t : Text} (hname : name ∈ names)
    (ht : Intact names t) : Rewrites names t (mapTokens r (fun _ => reference name) t) := by
  suffices main : ∀ before skip, ClosedFor skip t →
      Rewrites names (t.drop skip) (replaceFrom r (reference name) before skip t) by
    exact main none 0 fun i hi => by omega
  refine Intact.induction hn (P := fun t => ∀ before skip, ClosedFor skip t →
    Rewrites names (t.drop skip) (replaceFrom r (reference name) before skip t)) ?_ ?_ ?_ ht
  · intro before skip _
    rw [List.drop_nil]
    exact .nil
  · intro c t hc _ ih before skip hskip
    cases skip with
    | succ skip =>
        rw [replaceFrom_skip]
        exact ih _ _ fun i hi => hskip (i + 1) (by omega)
    | zero =>
        by_cases h : ∃ n, r before (c :: t) = some (n + 1)
        · obtain ⟨n, h⟩ := h
          have closed := hr.outside _ _ _ h
          have others := ih (some c) n fun i hi => closed (i + 1) (by omega)
          rw [replaceFrom_token h, List.drop_zero]
          exact .token hname closed others
        · rw [replaceFrom_char (by simpa using h)]
          exact .char hc (ih (some c) 0 fun i hi => by omega)
  · intro other t hother _ ih before skip hskip
    have starts : opening <+: reference other ++ t := by simp [reference_append, opening]
    cases skip with
    | succ skip => exact absurd starts (hskip 0 (by omega))
    | zero =>
        rw [hr.replaceFrom_reference hother, List.drop_zero]
        exact .use hother (ih _ 0 fun i hi => by omega)

end Spares

theorem joinsNext_of_isPart {c : Char} (h : TokenName.isPart c) : Length.joinsNext c := by
  simp only [TokenName.isPart, Bool.or_eq_true, beq_iff_eq] at h
  rcases h with (rfl | digit) | lower
  · rfl
  · have bound : c.toNat ≤ 57 :=
      UInt32.le_iff_toNat_le.1 (of_decide_eq_true (Bool.and_eq_true_iff.1 digit).2)
    have alphanum : c.isAlphanum := Bool.or_eq_true_iff.2 (.inr digit)
    have ascii : c.toNat < 128 := by omega
    simp [Length.joinsNext, isWord, ascii, alphanum]
  · have bound : c.toNat ≤ 122 :=
      UInt32.le_iff_toNat_le.1 (of_decide_eq_true (Bool.and_eq_true_iff.1 lower).2)
    have alphanum : c.isAlphanum :=
      Bool.or_eq_true_iff.2 (.inl (Bool.or_eq_true_iff.2 (.inr lower)))
    have ascii : c.toNat < 128 := by omega
    simp [Length.joinsNext, isWord, ascii, alphanum]

/-- A name that begins with two `-`, and in which no literal could start behind a character. -/
structure TokenName.Unbroken (name : Text) : Prop where
  dashes : ['-', '-'] <+: name
  joins : ∀ c ∈ name, Length.joinsNext c

theorem TokenName.Valid.unbroken {name : Text} (h : Valid name) : Unbroken name :=
  ⟨h.dashes, fun c hc => joinsNext_of_isPart (h.parts c hc)⟩

section Inside

variable {name front back : Text} (hfront : front ≠ []) (hback : back ≠ [])
  (he : reference name = front ++ back)
include hback he

/-- Where a reference is cut in two: in its name or after it, or in its opening. -/
theorem cut_reference :
    (∃ as s, front = opening ++ as ∧ name = as ++ s ∧ back = s ++ [')']) ∨
      ∃ bs, bs ≠ [] ∧ opening = front ++ bs ∧ back = bs ++ name ++ [')'] := by
  have text : opening ++ (name ++ [')']) = front ++ back := by
    rw [← he, ← List.append_nil (reference name), reference_append]
    rfl
  rcases List.append_eq_append_iff.1 text with ⟨as, hf, hb⟩ | ⟨bs, hf, hb⟩
  · rcases List.eq_nil_or_concat back with rfl | ⟨s, d, rfl⟩
    · exact absurd rfl hback
    · rw [List.concat_eq_append] at hb ⊢
      rw [← List.append_assoc] at hb
      obtain ⟨rfl, hd⟩ := List.append_inj' hb rfl
      exact .inl ⟨as, s, hf, rfl, by rw [hd]⟩
  · cases bs with
    | nil => exact .inl ⟨[], name, by simpa using hf.symm, rfl, by simpa using hb⟩
    | cons b bs => exact .inr ⟨b :: bs, by simp, hf, by simpa using hb⟩

include hfront

/-- A proper part at the end of a reference. -/
theorem exists_suffix_of_reference :
    ∃ s, back = s ++ [')'] ∧ s <:+ 'a' :: 'r' :: '(' :: name := by
  rcases cut_reference hback he with ⟨as, s, rfl, rfl, rfl⟩ | ⟨bs, hne, hf, rfl⟩
  · exact ⟨s, rfl, ⟨'a' :: 'r' :: '(' :: as, by simp⟩⟩
  · obtain ⟨c, front, rfl⟩ := List.exists_cons_of_ne_nil hfront
    refine ⟨bs ++ name, rfl, front, ?_⟩
    have tail : ['a', 'r', '('] = front ++ bs := congrArg List.tail hf
    simp [← List.append_assoc, ← tail]

/-- Inside of a reference every place but that before the name is after a letter, a digit or a `-`.
-/
theorem joinsNext_or_eq_opening (hv : TokenName.Valid name) :
    (∃ c, front.getLast? = some c ∧ Length.joinsNext c) ∨
      front = opening ∧ back = name ++ [')'] := by
  rcases cut_reference hback he with ⟨as, s, rfl, rfl, rfl⟩ | ⟨bs, hne, hf, rfl⟩
  · rcases List.eq_nil_or_concat as with rfl | ⟨as, c, rfl⟩
    · exact .inr ⟨by simp, rfl⟩
    · exact .inl ⟨c, by simp, joinsNext_of_isPart (hv.parts c (by simp))⟩
  · have letters : ∀ c ∈ opening.dropLast, Length.joinsNext c := List.all_eq_true.1 (by decide)
    rw [hf, List.dropLast_append_of_ne_nil hne] at letters
    refine .inl ⟨front.getLast hfront, List.getLast?_eq_some_getLast hfront, letters _ ?_⟩
    simp

end Inside

/-- No opening stands in a literal, and none starts at its end. -/
def Apart (literal : Text) : Prop :=
  ∀ s, s ≠ [] → s <:+ literal → ¬ s <+: opening ∧ ¬ opening <+: s

theorem Apart.closedFor {literal t : Text} (h : Apart literal) (ht : literal <+: t) :
    ClosedFor literal.length t := by
  obtain ⟨rest, rfl⟩ := ht
  intro i hi starts
  rw [List.drop_append_of_le_length hi.le] at starts
  have ending := h (literal.drop i) (by simpa using hi) (List.drop_suffix i literal)
  rcases List.prefix_or_prefix_of_prefix starts (List.prefix_append _ rest) with long | short
  · exact ending.2 long
  · exact ending.1 short

theorem Apart.of_getLast? {literal : Text} {c : Char} (hc : literal.getLast? = some c)
    (hopen : c ∉ opening) (h : ¬ opening <:+: literal) : Apart literal := by
  intro s hne hs
  constructor
  · intro short
    obtain ⟨front, rfl⟩ := hs
    rw [List.getLast?_append_of_ne_nil _ hne] at hc
    exact hopen (short.subset (List.mem_of_getLast? hc))
  · intro long
    exact h (long.isInfix.trans hs.isInfix)

theorem Apart.of_close {front : Text} (h : ¬ opening <:+: front ++ [')']) :
    Apart (front ++ [')']) := .of_getLast? List.getLast?_concat (by decide) h

theorem Apart.of_notMem {literal : Text} (h : 'v' ∉ literal) : Apart literal := by
  intro s hne hs
  obtain ⟨c, s, rfl⟩ := List.exists_cons_of_ne_nil hne
  constructor
  · intro short
    obtain ⟨rfl, -⟩ := List.cons_prefix_cons.1 short
    exact h (hs.subset (by simp))
  · intro long
    obtain ⟨rfl, -⟩ := List.cons_prefix_cons.1 long
    exact h (hs.subset (by simp))

/-- A reference without its first character. -/
theorem Apart.of_reference {p : Text} (hp : '(' ∉ p) :
    Apart ('a' :: 'r' :: '(' :: (p ++ [')'])) := by
  have none : ¬ opening <:+: ['a', 'r', '('] := by decide
  refine @Apart.of_close ('a' :: 'r' :: '(' :: p) fun long => none ?_
  exact @infix_of_infix_append ['v', 'a', 'r'] ['a', 'r', '('] (p ++ [')']) '(' (by simp [hp]) long

/-- What starts with an opening starts nowhere in text that is apart from openings. -/
theorem Apart.not_prefix_append {a q p : Text} (ha : Apart a) (hp : opening <+: p) (hq : q ≠ [])
    (suffix : q <:+ a) (rest : Text) : ¬ p <+: q ++ rest := by
  intro start
  have whole := ha q hq suffix
  rcases List.prefix_or_prefix_of_prefix (hp.trans start) (List.prefix_append q rest) with
    long | short
  · exact whole.2 long
  · exact whole.1 short

theorem Apart.infix_of_append {a b p : Text} (ha : Apart a) (hp : opening <+: p)
    (h : p <:+: a ++ b) : p <:+: b :=
  infix_of_infix_append_of_forall (fun _ hq suffix => ha.not_prefix_append hp hq suffix b) h

variable {literal : Text}

theorem spares_literalToken (h : Apart literal)
    (hname : ∀ name ∈ names, ∀ s rest, s <:+ 'a' :: 'r' :: '(' :: name →
      ¬ literal <+: s ++ ')' :: rest) : Spares names (literalToken literal) := by
  constructor
  · intro before t n ht
    rw [literalToken] at ht
    split at ht
    · rename_i hp
      cases ht
      exact h.closedFor (List.isPrefixOf_iff_prefix.1 hp)
    · cases ht
  · intro name hmem front back rest hfront hback he
    obtain ⟨s, rfl, hs⟩ := exists_suffix_of_reference hfront hback he
    have apart := hname name hmem s rest hs
    rw [literalToken, if_neg]
    simpa [List.isPrefixOf_iff_prefix] using apart

/-- A literal that stands alone is no part of a reference if it does not start one, does not start
like a name, and does not end with what an opening can follow. -/
theorem spares_loneToken {spelling : Spelling} (hn : ∀ name ∈ names, TokenName.Valid name)
    (hne : literal ≠ [])
    (hout : ∀ t, spelling.matches literal t →
      nextIs joinsPrevious (t.drop literal.length) = false → ClosedFor literal.length t)
    (hdashes : ∀ t, spelling.matches literal ('-' :: '-' :: t) → literal.length < 2) :
    Spares names (loneToken spelling literal) := by
  constructor
  · intro before t n ht
    rw [loneToken] at ht
    split at ht
    · rename_i hp
      cases ht
      simp only [Bool.and_eq_true, Bool.not_eq_true'] at hp
      exact hout t hp.1.1 hp.2
    · cases ht
  · intro name hmem front back rest hfront hback he
    rw [loneToken, if_neg]
    simp only [Bool.and_eq_true, Bool.not_eq_true', not_and, and_imp]
    intro hp alone
    rcases joinsNext_or_eq_opening hfront hback he (hn name hmem) with ⟨c, last, joins⟩ | ⟨rfl, rfl⟩
    · simp [last, joins] at alone
    · obtain ⟨tail, rfl⟩ := (hn name hmem).dashes
      have length := hdashes _ hp
      have one : literal.length = 1 := by
        have := List.length_pos_of_ne_nil hne
        omega
      rw [one]
      simp only [List.cons_append, List.nil_append, List.drop_succ_cons, List.drop_zero, nextIs]
      decide

/-- A literal that is apart from references also where it stands alone. -/
structure Separate (literal : Text) : Prop where
  ne_nil : literal ≠ []
  apart : Apart literal
  dashes : ¬ ['-', '-'] <+: literal

theorem Separate.spares (hn : ∀ name ∈ names, TokenName.Valid name) (h : Separate literal) :
    Spares names (loneToken .exact literal) := by
  refine spares_loneToken hn h.ne_nil ?_ ?_
  · intro t ht _
    exact h.apart.closedFor (List.isPrefixOf_iff_prefix.1 ht)
  · intro t ht
    by_contra long
    have dashes : ['-', '-'] <+: '-' :: '-' :: t := by simp
    refine h.dashes (List.prefix_of_prefix_length_le dashes (List.isPrefixOf_iff_prefix.1 ht) ?_)
    exact not_lt.1 long

end DesignTokens
