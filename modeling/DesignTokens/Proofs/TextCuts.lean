import DesignTokens.Text.Basic
import Mathlib.Data.List.DropRight
import Mathlib.Data.List.Infix
import Mathlib.Data.List.TakeWhile

/-!
Laws of the cuts of a text: at the first of a class of characters, at the first separator, and at
blanks around a value. What starts or occurs in two texts in a row and holds no character that
parts them does so in one of the two.
-/
namespace DesignTokens.Text

theorem takeWhile_run {p : Char → Bool} {run rest : Text} {c : Char} (hrun : ∀ a ∈ run, p a)
    (hc : p c = false) : (run ++ c :: rest).takeWhile p = run := by
  rw [List.takeWhile_append_of_pos hrun]
  simp [hc]

theorem dropWhile_run {p : Char → Bool} {run rest : Text} {c : Char} (hrun : ∀ a ∈ run, p a)
    (hc : p c = false) : (run ++ c :: rest).dropWhile p = c :: rest := by
  rw [List.dropWhile_append_of_pos hrun]
  simp [hc]

/-- A run ends where the class does not go on. -/
theorem takeWhile_append_of_nextIs {p : Char → Bool} {run rest : Text} (hrun : ∀ a ∈ run, p a)
    (hrest : nextIs p rest = false) : (run ++ rest).takeWhile p = run := by
  cases rest with
  | nil => simpa [List.takeWhile_eq_self_iff] using hrun
  | cons c rest => exact takeWhile_run hrun hrest

theorem dropWhile_append_of_nextIs {p : Char → Bool} {run rest : Text} (hrun : ∀ a ∈ run, p a)
    (hrest : nextIs p rest = false) : (run ++ rest).dropWhile p = rest := by
  cases rest with
  | nil => simpa [List.dropWhile_eq_nil_iff] using hrun
  | cons c rest => exact dropWhile_run hrun hrest

theorem nextIs_dropWhile (p : Char → Bool) (t : Text) : nextIs p (t.dropWhile p) = false := by
  cases h : t.dropWhile p with
  | nil => rfl
  | cons c rest =>
      have stop := List.head?_dropWhile_not p t
      simpa [h, nextIs] using stop

theorem of_dropWhile_eq_cons {p : Char → Bool} {t rest : Text} {c : Char}
    (h : t.dropWhile p = c :: rest) : p c = false := by
  have stop := nextIs_dropWhile p t
  rwa [h] at stop

theorem cut_of_notMem {sep : Char} {t : Text} (h : sep ∉ t) : cut sep t = (t, none) := by
  induction t with
  | nil => rfl
  | cons c rest ih =>
      simp only [List.mem_cons, not_or] at h
      simp [cut, ih h.2, Ne.symm h.1]

theorem cut_append_cons {sep : Char} {front : Text} (h : sep ∉ front) (rest : Text) :
    cut sep (front ++ sep :: rest) = (front, some rest) := by
  induction front with
  | nil => simp [cut]
  | cons c front ih =>
      simp only [List.mem_cons, not_or] at h
      simp [cut, ih h.2, Ne.symm h.1]

theorem notMem_cut_fst (sep : Char) (t : Text) : sep ∉ (cut sep t).1 := by
  induction t with
  | nil => simp [cut]
  | cons c rest ih =>
      by_cases h : c = sep
      · simp [cut, h]
      · simp [cut, h, Ne.symm h, ih]

theorem eq_of_cut_some {sep : Char} {t front rest : Text} (h : cut sep t = (front, some rest)) :
    t = front ++ sep :: rest ∧ sep ∉ front := by
  have text := cut_text sep t
  have plain := notMem_cut_fst sep t
  rw [h] at text plain
  exact ⟨text.symm, plain⟩

theorem eq_of_cut_none {sep : Char} {t front : Text} (h : cut sep t = (front, none)) :
    t = front ∧ sep ∉ front := by
  have text := cut_text sep t
  have plain := notMem_cut_fst sep t
  rw [h] at text plain
  exact ⟨by simpa using text.symm, plain⟩

theorem trimLeft_append_of_blank {blanks t : Text} (h : ∀ c ∈ blanks, isBlank c) :
    trimLeft (blanks ++ t) = trimLeft t := List.dropWhile_append_of_pos h

theorem trim_append_of_blank {blanks t : Text} (h : ∀ c ∈ blanks, isBlank c) :
    trim (blanks ++ t) = trim t := by rw [trim, trimLeft_append_of_blank h, trim]

theorem trim_cons_of_blank {c : Char} (h : isBlank c) (t : Text) : trim (c :: t) = trim t :=
  @trim_append_of_blank [c] t (by simpa using h)

theorem trimLeft_eq_nil_iff {t : Text} : trimLeft t = [] ↔ ∀ c ∈ t, isBlank c :=
  List.dropWhile_eq_nil_iff

theorem trim_eq_nil_of_blank {t : Text} (h : ∀ c ∈ t, isBlank c) : trim t = [] := by
  rw [trim, trimLeft_eq_nil_iff.2 h]
  rfl

/-- Only the blanks around a text are trimmed. -/
theorem trim_append_blanks {t blanks : Text} (first : nextIs isBlank t = false)
    (last : t.getLast?.any isBlank = false) (hb : ∀ c ∈ blanks, isBlank c) :
    trim (t ++ blanks) = t := by
  cases t with
  | nil => exact trim_eq_nil_of_blank hb
  | cons c t =>
      have left : trimLeft (c :: t ++ blanks) = c :: t ++ blanks :=
        List.dropWhile_cons_of_neg (by simpa [nextIs] using first)
      have back : ∀ d ∈ blanks.reverse, isBlank d := by simpa using hb
      have right : (c :: t).reverse.dropWhile isBlank = (c :: t).reverse := by
        rw [← List.head?_reverse] at last
        cases h : (c :: t).reverse with
        | nil => rfl
        | cons d rest =>
            rw [h] at last
            exact List.dropWhile_cons_of_neg (by simpa using last)
      rw [trim, left, trimRight, List.reverse_append, List.dropWhile_append_of_pos back, right,
        List.reverse_reverse]

theorem trim_of_ends {t : Text} (first : nextIs isBlank t = false)
    (last : t.getLast?.any isBlank = false) : trim t = t := by
  have trimmed := trim_append_blanks first last (List.forall_mem_nil _)
  rwa [List.append_nil] at trimmed

theorem trim_append_of_solid {t blanks : Text} (h : ∀ c ∈ t, isBlank c = false)
    (hb : ∀ c ∈ blanks, isBlank c) : trim (t ++ blanks) = t := by
  refine trim_append_blanks ?_ ?_ hb
  · cases t with
    | nil => rfl
    | cons c t => exact h c List.mem_cons_self
  · cases last : t.getLast? with
    | none => rfl
    | some c => exact h c (List.mem_of_getLast? last)

theorem trim_of_solid {t : Text} (h : ∀ c ∈ t, isBlank c = false) : trim t = t := by
  have trimmed := trim_append_of_solid h (List.forall_mem_nil _)
  rwa [List.append_nil] at trimmed

theorem trim_isInfix (t : Text) : trim t <:+: t := by
  have left : trimLeft t <:+: t := (List.dropWhile_suffix isBlank).isInfix
  refine List.IsInfix.trans (List.IsPrefix.isInfix ?_) left
  rw [← List.reverse_suffix, trim, trimRight, List.reverse_reverse]
  exact List.dropWhile_suffix isBlank

theorem trimLeft_trimLeft (t : Text) : trimLeft (trimLeft t) = trimLeft t :=
  List.dropWhile_idempotent (p := isBlank) t

theorem prefix_append_cases {p a b : Text} (h : p <+: a ++ b) :
    p <+: a ∨ ∃ c q, c :: q <+: b ∧ p = a ++ c :: q := by
  rcases List.prefix_or_prefix_of_prefix h (List.prefix_append a b) with short | ⟨q, rfl⟩
  · exact .inl short
  · cases q with
    | nil => exact .inl (by simp)
    | cons c q => exact .inr ⟨c, q, (List.prefix_append_right_inj a).1 h, rfl⟩

theorem prefix_append_cons_iff {p a b : Text} {c : Char} (h : c ∉ p) :
    p <+: a ++ c :: b ↔ p <+: a := by
  constructor
  · intro hp
    rcases prefix_append_cases hp with short | ⟨d, q, hq, rfl⟩
    · exact short
    · obtain ⟨rfl, -⟩ := List.cons_prefix_cons.1 hq
      simp at h
  · intro hp
    exact hp.trans (List.prefix_append _ _)

/-- A prefix does not reach into a text that its last character does not occur in. -/
theorem prefix_of_prefix_append {p a b : Text} {d : Char} (h : d ∉ b) (hp : p ++ [d] <+: a ++ b) :
    p ++ [d] <+: a := by
  rcases prefix_append_cases hp with short | ⟨e, q, he, hq⟩
  · exact short
  · have last := congrArg List.getLast? hq
    rw [List.getLast?_concat, List.getLast?_append_cons] at last
    exact absurd (he.subset (List.mem_of_getLast? last.symm)) h

theorem infix_of_infix_append {p a b : Text} {d : Char} (h : d ∉ b) (hp : p ++ [d] <:+: a ++ b) :
    p ++ [d] <:+: a := by
  obtain ⟨front, back, text⟩ := hp
  have start : front ++ p ++ [d] <+: a ++ b := ⟨back, by rw [← text]; simp⟩
  have short := prefix_of_prefix_append h start
  rw [List.append_assoc] at short
  exact (List.suffix_append front _).isInfix.trans short.isInfix

/-- What starts nowhere in a text occurs only behind it. -/
theorem infix_of_infix_append_of_forall {p front rest : Text}
    (h : ∀ q, q ≠ [] → q <:+ front → ¬ p <+: q ++ rest) (hp : p <:+: front ++ rest) :
    p <:+: rest := by
  induction front with
  | nil => exact hp
  | cons c front ih =>
      rcases List.infix_cons_iff.1 hp with start | later
      · exact absurd start (h (c :: front) (by simp) (List.suffix_refl _))
      · exact ih (fun q hq suffix => h q hq (suffix.trans (List.suffix_cons c front))) later

theorem infix_append_cons_iff {p a b : Text} {c : Char} (h : c ∉ p) :
    p <:+: a ++ c :: b ↔ p <:+: a ∨ p <:+: b := by
  induction a with
  | nil =>
      have first : p <+: c :: b ↔ p <+: [] := @prefix_append_cons_iff p [] b c h
      rw [List.nil_append, List.infix_cons_iff, first, List.infix_nil, List.prefix_nil]
  | cons d a ih =>
      have first : p <+: d :: (a ++ c :: b) ↔ p <+: d :: a :=
        @prefix_append_cons_iff p (d :: a) b c h
      rw [List.cons_append, List.infix_cons_iff, List.infix_cons_iff, first, ih, or_assoc]

theorem infix_blank_append {p a t : Text} (ha : ∀ c ∈ a, isBlank c) (hne : p ≠ [])
    (hp : ∀ c ∈ p.head?, isBlank c = false) : p <:+: a ++ t ↔ p <:+: t := by
  induction a with
  | nil => rfl
  | cons c a ih =>
      have start : ¬ p <+: c :: (a ++ t) := by
        intro start
        obtain ⟨d, p, rfl⟩ := List.exists_cons_of_ne_nil hne
        obtain ⟨rfl, -⟩ := List.cons_prefix_cons.1 start
        simpa [ha d (by simp)] using hp d rfl
      rw [List.cons_append, List.infix_cons_iff, ih fun d hd => ha d (by simp [hd])]
      exact or_iff_right start

theorem exists_trim (t : Text) :
    ∃ a b, t = a ++ (trim t ++ b) ∧ (∀ c ∈ a, isBlank c) ∧ ∀ c ∈ b, isBlank c := by
  have left := List.takeWhile_append_dropWhile (p := isBlank) (l := t)
  have right := List.takeWhile_append_dropWhile (p := isBlank) (l := (trimLeft t).reverse)
  refine ⟨t.takeWhile isBlank, ((trimLeft t).reverse.takeWhile isBlank).reverse, ?_,
    fun c hc => List.mem_takeWhile_imp hc,
    fun c hc => List.mem_takeWhile_imp (List.mem_reverse.1 hc)⟩
  have back : trim t ++ ((trimLeft t).reverse.takeWhile isBlank).reverse = trimLeft t := by
    rw [trim, trimRight, ← List.reverse_append, right, List.reverse_reverse]
  rw [back]
  exact left.symm

/-- What starts and ends with no blank. -/
structure IsSolid (p : Text) : Prop where
  ne_nil : p ≠ []
  head : ∀ c ∈ p.head?, isBlank c = false
  last : ∀ c ∈ p.getLast?, isBlank c = false

namespace IsSolid

variable {p : Text} (h : IsSolid p)
include h

/-- Blanks around a text do not matter to what occurs in it. -/
theorem infix_blank_iff {a b : Text} (ha : ∀ c ∈ a, isBlank c) (hb : ∀ c ∈ b, isBlank c)
    (t : Text) : p <:+: a ++ (t ++ b) ↔ p <:+: t := by
  have back : p <:+: t ++ b ↔ p <:+: t := by
    have reversed := @infix_blank_append p.reverse b.reverse t.reverse
      (by simpa using hb) (by simpa using h.ne_nil) (by simpa using h.last)
    rwa [← List.reverse_append, List.reverse_infix, List.reverse_infix] at reversed
  rw [infix_blank_append ha h.ne_nil h.head, back]

theorem infix_trim_iff (t : Text) : p <:+: trim t ↔ p <:+: t := by
  obtain ⟨a, b, text, ha, hb⟩ := exists_trim t
  rw [← h.infix_blank_iff ha hb (trim t), ← text]

end IsSolid

end DesignTokens.Text
