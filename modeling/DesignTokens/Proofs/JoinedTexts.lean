import DesignTokens.Proofs.LoneLiterals

/-!
Parentheses that are joined: a closing one directly followed by an opening one. A text in which
literals become references has such a place where it had one before, or where a literal is directly
followed by an opening parenthesis.
-/
namespace DesignTokens.Text

open Spares

/-- A closing parenthesis is directly followed by an opening one. -/
def Joined (t : Text) : Prop := [')', '('] <:+: t

instance (t : Text) : Decidable (Joined t) := inferInstanceAs (Decidable (_ <:+: t))

theorem not_joined_nil : ¬ Joined [] := by decide

theorem joined_cons_iff {c : Char} {t : Text} :
    Joined (c :: t) ↔ (c = ')' ∧ t.head? = some '(') ∨ Joined t := by
  rw [Joined, List.infix_cons_iff, List.cons_prefix_cons]
  refine or_congr (and_congr eq_comm ?_) Iff.rfl
  cases t with
  | nil => simp
  | cons d t => simp [List.cons_prefix_cons, eq_comm]

theorem joined_append_iff {a b : Text} :
    Joined (a ++ b) ↔ Joined a ∨ (a.getLast? = some ')' ∧ b.head? = some '(') ∨ Joined b := by
  induction a with
  | nil => simp [not_joined_nil]
  | cons c a ih =>
      rw [List.cons_append, joined_cons_iff, ih, joined_cons_iff]
      cases a with
      | nil => simp [not_joined_nil]
      | cons d a =>
          rw [List.getLast?_cons_cons, List.cons_append]
          simp only [List.head?_cons]
          tauto

theorem not_joined_of_notMem {t : Text} (h : '(' ∉ t) : ¬ Joined t :=
  fun joined => h (joined.subset (by simp))

theorem not_joined_reference {name : Text} (h : '(' ∉ name) : ¬ Joined (reference name) := by
  have front : ¬ Joined opening := by decide
  have last : opening.getLast? = some '(' := by decide
  have close : ¬ Joined [')'] := by decide
  change ¬ Joined (opening ++ name ++ [')'])
  rw [joined_append_iff, joined_append_iff, last]
  simp [front, not_joined_of_notMem h, close]

/-- A recognizer of a literal that hides no place where parentheses are joined, and of which no
occurrence reaches into another. -/
structure Parts (r : Recognizer) (literal : Text) : Prop extends Seeks r literal where
  head : literal.head? ≠ some '('
  not_joined : ¬ Joined literal
  apart : ∀ a q rest, literal = a ++ q → a ≠ [] → q ≠ [] → q <+: literal →
    r a.getLast? (q ++ rest) = none

/-- A literal that is taken is directly followed by an opening parenthesis. -/
def CallsAfter (r : Recognizer) (literal : Text) (before : Option Char) (t : Text) : Prop :=
  ∃ front back, t = front ++ (literal ++ '(' :: back) ∧
    (r (front.getLast?.or before) (literal ++ '(' :: back)).isSome

namespace Parts

variable {r : Recognizer} {literal name t : Text} {before : Option Char} (h : Parts r literal)
include h

theorem head_replaceFrom_iff : (replaceFrom r (reference name) before 0 t).head? = some '(' ↔
    t.head? = some '(' := by
  cases t with
  | nil => rfl
  | cons c t =>
      cases first : r before (c :: t) with
      | none => rw [Seeks.replaceFrom_copied first, List.head?_cons, List.head?_cons]
      | some n =>
          obtain ⟨⟨rest, text⟩, rfl⟩ := h.taken _ _ _ first
          have other := h.head
          rw [← text] at first ⊢
          rw [h.replaceFrom_found first, List.head?_append_of_ne_nil _ h.ne_nil]
          simp [reference_append, other]

theorem getLast?_append_or (front : Text) :
    (literal ++ front).getLast?.or before = front.getLast?.or literal.getLast? := by
  cases front with
  | nil =>
      rw [List.append_nil, List.getLast?_nil, Option.none_or,
        List.getLast?_eq_some_getLast h.ne_nil]
      rfl
  | cons c front =>
      rw [List.getLast?_append_of_ne_nil _ (by simp), List.getLast?_eq_some_getLast (by simp)]
      rfl

theorem callsAfter_found_iff (found : r before (literal ++ t) = some literal.length) :
    CallsAfter r literal before (literal ++ t) ↔
      t.head? = some '(' ∨ CallsAfter r literal literal.getLast? t := by
  constructor
  · rintro ⟨front, back, text, taken⟩
    rcases List.append_eq_append_iff.1 text with ⟨rest, rfl, after⟩ | ⟨rest, inner, after⟩
    · rw [h.getLast?_append_or] at taken
      exact .inr ⟨rest, back, after, taken⟩
    · by_cases first : front = []
      · subst first
        rw [List.nil_append] at inner
        rw [inner] at after
        exact .inl (by simp [← List.append_cancel_left after])
      · by_cases last : rest = []
        · subst last
          rw [List.append_nil] at inner
          rw [← inner, ← List.append_nil literal, h.getLast?_append_or] at taken
          exact .inr ⟨[], back, by simpa using after.symm, by simpa using taken⟩
        · -- Here the literal would reach into itself.
          exfalso
          have start : rest <+: literal := by
            refine List.prefix_of_prefix_length_le ⟨t, after.symm⟩ (List.prefix_append literal _) ?_
            rw [inner, List.length_append]
            exact Nat.le_add_left _ _
          have none := h.apart front rest t inner first last start
          rw [after, List.getLast?_eq_some_getLast first, Option.some_or,
            ← List.getLast?_eq_some_getLast first, none] at taken
          cases taken
  · rintro (next | ⟨front, back, rfl, taken⟩)
    · obtain ⟨back, rfl⟩ := List.head?_eq_some_iff.1 next
      exact ⟨[], back, rfl, by rw [List.getLast?_nil, Option.none_or, found]; rfl⟩
    · refine ⟨literal ++ front, back, by simp, ?_⟩
      rwa [h.getLast?_append_or]

omit h in
theorem callsAfter_copied_iff {c : Char} (copied : r before (c :: t) = none) :
    CallsAfter r literal before (c :: t) ↔ CallsAfter r literal (some c) t := by
  constructor
  · rintro ⟨front, back, text, taken⟩
    cases front with
    | nil =>
        rw [List.nil_append] at text
        rw [List.getLast?_nil, Option.none_or, ← text, copied] at taken
        cases taken
    | cons d front =>
        obtain ⟨rfl, tail⟩ := List.cons.inj text
        rw [getLast?_cons_or] at taken
        exact ⟨front, back, tail, taken⟩
  · rintro ⟨front, back, rfl, taken⟩
    refine ⟨c :: front, back, rfl, ?_⟩
    rwa [getLast?_cons_or]

/-- Where literals become references, parentheses are joined behind a literal or where they were. -/
theorem joined_replaceFrom_iff (hn : '(' ∉ name) :
    Joined (replaceFrom r (reference name) before 0 t) ↔
      Joined t ∨ CallsAfter r literal before t := by
  have last : (reference name).getLast? = some ')' := List.getLast?_concat
  refine h.steps (P := fun before t => Joined (replaceFrom r (reference name) before 0 t) ↔
    Joined t ∨ CallsAfter r literal before t) ?_ ?_ ?_ before t
  · intro before
    have none : ¬ CallsAfter r literal before [] := by
      rintro ⟨front, back, text, -⟩
      simp at text
    exact (or_iff_left none).symm
  · intro before t found ih
    rw [h.replaceFrom_found found, joined_append_iff, ih, h.head_replaceFrom_iff, last,
      h.callsAfter_found_iff found, joined_append_iff]
    have anew := not_joined_reference hn
    have old := h.not_joined
    have ending (joined : literal.getLast? = some ')' ∧ t.head? = some '(') := joined.2
    tauto
  · intro before c t copied ih
    rw [Seeks.replaceFrom_copied copied, joined_cons_iff, ih, h.head_replaceFrom_iff,
      callsAfter_copied_iff copied, joined_cons_iff, or_assoc]

end Parts

/-! ### Literals -/

namespace Parts

variable {literal : Text}

/-- A literal that goes on as a name or a number does up to its last character. -/
theorem of_joinsNext (hne : literal ≠ []) (joins : ∀ c ∈ literal.dropLast, Length.joinsNext c)
    (flat : '(' ∉ literal) : Parts (loneToken .exact literal) literal := by
  refine ⟨seeks_loneToken hne, fun head => flat (List.mem_of_mem_head? head),
    not_joined_of_notMem flat, fun a q rest text ha hq _ => ?_⟩
  exact loneToken_inside_eq_none joins text ha hq rest

/-- A literal whose last character is its only closing parenthesis. -/
theorem of_close {r : Recognizer} {front : Text} (h : Seeks r (front ++ [')']))
    (head : front.head?.any (· ≠ '(')) (flat : ')' ∉ front) : Parts r (front ++ [')']) := by
  refine ⟨h, ?_, ?_, fun a q rest text ha hq start => ?_⟩
  · cases front with
    | nil => cases head
    | cons c front => simpa using head
  · have close : ¬ Joined [')'] := by decide
    have plain : ¬ Joined front := fun joined => flat (joined.subset (by simp))
    simp [joined_append_iff, close, plain]
  · -- What the literal ends with holds the parenthesis, so the literal does not start with it.
    exfalso
    have lengths := congrArg List.length text
    have positive := List.length_pos_of_ne_nil ha
    rw [List.length_append, List.length_append, List.length_singleton] at lengths
    have short : q <+: front :=
      List.prefix_of_prefix_length_le start (List.prefix_append _ _) (by omega)
    have last := congrArg List.getLast? text
    rw [List.getLast?_concat, List.getLast?_append_of_ne_nil _ hq] at last
    exact flat (short.subset (List.mem_of_getLast? last.symm))

/-- A literal that holds its first character once. -/
theorem of_head {r : Recognizer} {c : Char} {tail : Text} (h : Seeks r (c :: tail))
    (once : c ∉ tail) (flat : '(' ∉ c :: tail) : Parts r (c :: tail) := by
  refine ⟨h, fun head => flat (List.mem_of_mem_head? head), not_joined_of_notMem flat,
    fun a q rest text ha hq start => ?_⟩
  exfalso
  obtain ⟨d, a, rfl⟩ := List.exists_cons_of_ne_nil ha
  obtain ⟨e, q, rfl⟩ := List.exists_cons_of_ne_nil hq
  obtain ⟨-, inside⟩ := List.cons.inj text
  obtain ⟨rfl, -⟩ := List.cons_prefix_cons.1 start
  exact once (inside ▸ List.mem_append_right a List.mem_cons_self)

theorem of_written {n : Numeral} (hn : n.IsWritten) {unit : Text} (hne : unit ≠ [])
    (joins : ∀ c ∈ unit.dropLast, Length.joinsNext c) (flat : '(' ∉ unit) :
    Parts (loneToken .exact (n.text ++ unit)) (n.text ++ unit) := by
  have plain : '(' ∉ n.text := by
    intro hc
    rcases hn.mem_text_cases _ hc with digit | other | other
    · cases digit
    · exact absurd other (by decide)
    · exact absurd other (by decide)
  refine of_joinsNext (by simp [hne]) ?_ ?_
  · rw [List.dropLast_append_of_ne_nil hne]
    exact List.forall_mem_append.2 ⟨hn.joinsNext, joins⟩
  · rw [List.mem_append, not_or]
    exact ⟨plain, flat⟩

theorem of_length {v : Text} (h : literal ∈ Length.literals v) :
    Parts (loneToken .exact literal) literal := by
  obtain ⟨n, unit, hu, written, rfl⟩ := Length.exists_of_mem_literals h
  have units : ∀ unit ∈ [LengthUnit.px, .rem, .em, .percent, .vh, .vw], unit.name ≠ [] ∧
      unit.name.dropLast.all Length.joinsNext ∧ '(' ∉ unit.name := by decide
  obtain ⟨hne, joins, flat⟩ := units unit hu
  exact of_written written hne (List.all_eq_true.1 joins) flat

theorem of_duration {v : Text} (h : literal ∈ Duration.literals v) :
    Parts (loneToken .exact literal) literal := by
  obtain ⟨n, unit, hu, written, rfl⟩ := Duration.exists_of_mem_literals h
  have units : ∀ unit ∈ Duration.unitNames, unit ≠ [] ∧
      unit.dropLast.all Length.joinsNext ∧ '(' ∉ unit := by decide
  obtain ⟨hne, joins, flat⟩ := units unit hu
  exact of_written written hne (List.all_eq_true.1 joins) flat

theorem of_call {r : Recognizer} {head args : Text} (h : Seeks r (head ++ args ++ [')']))
    (start : head.head?.any (· ≠ '(') ∧ ')' ∉ head) (inner : ')' ∉ args) :
    Parts r (head ++ args ++ [')']) := by
  refine of_close h ?_ (by simp [start.2, inner])
  cases head with
  | nil => cases start.1
  | cons c head => exact start.1

theorem of_easing {v : Text} (h : literal ∈ Easing.literals v) :
    Parts (loneToken .exact literal) literal := by
  rcases Easing.eq_of_mem_literals h with keyword | ⟨head, hh, args, inner, rfl⟩
  · have keywords : ∀ k ∈ Easing.keywords, k ≠ [] ∧ k.all Length.joinsNext ∧ '(' ∉ k := by decide
    obtain ⟨hne, joins, flat⟩ := keywords literal keyword
    exact of_joinsNext hne
      (fun c hc => List.all_eq_true.1 joins c (List.dropLast_subset _ hc)) flat
  · have heads : ∀ head ∈ Easing.calls, head.head?.any (· ≠ '(') ∧ ')' ∉ head := by decide
    exact of_call (seeks_loneToken (by simp)) (heads head hh) inner

theorem of_color {v : Text} (h : literal ∈ Color.literals v) :
    Parts (literalToken literal) literal := by
  have seeks := seeks_literalToken (apart_of_color h).2.ne_nil
  rcases Color.eq_of_mem_literals h with ⟨digits, rfl, hex⟩ | ⟨head, hh, args, ⟨-, inner⟩, rfl⟩
  · have plain {c : Char} (hc : Color.isHexDigit c = false) : c ∉ digits := fun mem => by
      rw [hex c mem] at hc
      cases hc
    exact of_head seeks (plain (by decide)) (by simp [plain (c := '(') (by decide)])
  · have heads : ∀ head ∈ Color.callHeads, head.head?.any (· ≠ '(') ∧ ')' ∉ head := by decide
    exact of_call seeks (heads head hh) inner

end Parts

/-! ### One literal after another -/

/-- Some literal is directly followed by an opening parenthesis where it is taken in its turn. -/
def CallsEach (taken : Text → Recognizer) : List (Text × Text) → Text → Prop
  | [], _ => False
  | e :: later, t => CallsAfter (taken e.1) e.1 none t ∨
    CallsEach taken later (mapTokens (taken e.1) (fun _ => reference e.2) t)

theorem joined_foldl_iff {taken : Text → Recognizer} {step : Text → Text × Text → Text}
    {entries : List (Text × Text)} (h : ∀ e ∈ entries, Parts (taken e.1) e.1 ∧ '(' ∉ e.2)
    (hs : ∀ e ∈ entries, ∀ t, step t e = mapTokens (taken e.1) (fun _ => reference e.2) t)
    {t : Text} : Joined (entries.foldl step t) ↔ Joined t ∨ CallsEach taken entries t := by
  induction entries generalizing t with
  | nil => rw [CallsEach, or_false, List.foldl_nil]
  | cons e entries ih =>
      obtain ⟨parts, name⟩ := h e List.mem_cons_self
      have first : Joined (mapTokens (taken e.1) (fun _ => reference e.2) t) ↔ _ :=
        parts.joined_replaceFrom_iff name
      rw [List.foldl_cons, ih (fun e' he' => h e' (List.mem_cons_of_mem e he'))
        (fun e' he' => hs e' (List.mem_cons_of_mem e he')), hs e List.mem_cons_self, first,
        CallsEach, or_assoc]

end DesignTokens.Text

namespace DesignTokens.TokenMap

open Text

variable {m : TokenMap} {t : Text}

/-- Some literal is directly followed by an opening parenthesis where it stands alone in its turn.
-/
def CallsLone (m : TokenMap) (v : Text) : Prop := CallsEach (loneToken .exact) m.byLength v

/-- Some literal is directly followed by an opening parenthesis where it occurs in its turn. -/
def CallsAll (m : TokenMap) (t : Text) : Prop := CallsEach literalToken m.byLength t

theorem joined_substituteLone_iff
    (h : ∀ e ∈ m.entries, Parts (loneToken .exact e.1) e.1 ∧ '(' ∉ e.2) :
    Joined (m.substituteLone .exact t) ↔ Joined t ∨ m.CallsLone t := by
  have parts : ∀ e ∈ m.byLength, Parts (loneToken .exact e.1) e.1 ∧ '(' ∉ e.2 :=
    fun e he => h e (mem_byLength.1 he)
  exact joined_foldl_iff parts fun e he t => if_neg (by simpa using (parts e he).1.ne_nil)

theorem joined_substituteAll_iff (h : ∀ e ∈ m.entries, Parts (literalToken e.1) e.1 ∧ '(' ∉ e.2) :
    Joined (m.substituteAll t) ↔ Joined t ∨ m.CallsAll t := by
  have parts : ∀ e ∈ m.byLength, Parts (literalToken e.1) e.1 ∧ '(' ∉ e.2 :=
    fun e he => h e (mem_byLength.1 he)
  exact joined_foldl_iff parts fun e he t => if_neg (by simpa using (parts e he).1.ne_nil)

end DesignTokens.TokenMap
