import DesignTokens.Proofs.LongestKeys

/-!
Laws of the replacement of a literal wherever it occurs, which is the only key of a pass from left
to right. A text is replaced in parts where no occurrence lies across a cut, and a literal apart
from references starts in the new text only where it started in the old one.
-/
namespace DesignTokens.Text

variable {literal new : Text} (hne : literal ≠ [])
include hne

/-- To replace a literal is to replace it as the only key. -/
theorem replaceAll_eq_mapLongest (t : Text) :
    replaceAll literal new t = mapLongest [literal] (fun _ => new) t := by
  have only : longestKey [literal] = literalToken literal := by
    funext before t
    rw [longestKey, literalToken]
    by_cases start : literal.isPrefixOf t
    · simp [start]
    · simp [start]
  rw [mapLongest, only]
  exact if_neg (by simpa using hne)

theorem replaceAll_nil : replaceAll literal new [] = [] := replaceAll_eq_mapLongest hne []

theorem replaceAll_found (t : Text) :
    replaceAll literal new (literal ++ t) = new ++ replaceAll literal new t := by
  rw [replaceAll_eq_mapLongest hne, replaceAll_eq_mapLongest hne]
  exact mapLongest_key hne (List.mem_singleton_self literal) (by simp)

theorem replaceAll_cons {c : Char} {t : Text} (h : ¬ literal <+: c :: t) :
    replaceAll literal new (c :: t) = c :: replaceAll literal new t := by
  rw [replaceAll_eq_mapLongest hne, replaceAll_eq_mapLongest hne]
  exact mapLongest_cons (by simpa using h)

omit new in
/-- Induction over a replacement from left to right. -/
theorem replace_steps {P : Text → Prop} (nil : P []) (found : ∀ t, P t → P (literal ++ t))
    (char : ∀ c t, ¬ literal <+: c :: t → P t → P (c :: t)) (t : Text) : P t := by
  refine @longest_steps [literal] (by simpa using hne) P nil ?_ ?_ t
  · intro key mem t _ rest
    rw [List.mem_singleton.1 mem]
    exact found t rest
  · exact fun c t copied => char c t (copied literal (List.mem_singleton_self literal))

/-- Replacement in two texts in a row, where no occurrence lies in both. -/
theorem replaceAll_append {rest : Text}
    (h : ∀ a q, literal = a ++ q → a ≠ [] → q ≠ [] → ¬ q <+: rest) (t : Text) :
    replaceAll literal new (t ++ rest) = replaceAll literal new t ++ replaceAll literal new rest := by
  induction t using replace_steps hne with
  | nil =>
      rw [replaceAll_nil hne]
      rfl
  | found t ih =>
      rw [List.append_assoc, replaceAll_found hne, replaceAll_found hne, ih, List.append_assoc]
  | char c t start ih =>
      have copied : ¬ literal <+: c :: (t ++ rest) := by
        intro hp
        rw [← List.cons_append] at hp
        rcases prefix_append_cases hp with short | ⟨d, q, hq, text⟩
        · exact start short
        · exact h (c :: t) (d :: q) text (by simp) (by simp) hq
      rw [List.cons_append, replaceAll_cons hne copied, replaceAll_cons hne start, ih]
      rfl

/-- Text in which no occurrence starts is copied. -/
theorem replaceAll_front {front rest : Text}
    (h : ∀ a q, front = a ++ q → q ≠ [] → ¬ literal <+: q ++ rest) :
    replaceAll literal new (front ++ rest) = front ++ replaceAll literal new rest := by
  rw [replaceAll_eq_mapLongest hne, replaceAll_eq_mapLongest hne]
  exact mapLongest_front fun a q text hq => by simpa using h a q text hq

theorem replaceAll_of_not_infix {t : Text} (h : ¬ literal <:+: t) : replaceAll literal new t = t := by
  have whole := @replaceAll_front literal new hne t [] fun a q text _ start => h ?_
  · rwa [replaceAll_nil hne, List.append_nil] at whole
  · rw [List.append_nil] at start
    rw [text]
    exact start.isInfix.trans (List.suffix_append a q).isInfix

theorem replaceAll_ne_nil (hnew : new ≠ []) {t : Text} (ht : t ≠ []) :
    replaceAll literal new t ≠ [] := by
  obtain ⟨c, t, rfl⟩ := List.exists_cons_of_ne_nil ht
  by_cases start : literal <+: c :: t
  · obtain ⟨rest, text⟩ := start
    rw [← text, replaceAll_found hne]
    simp [hnew]
  · rw [replaceAll_cons hne start]
    simp

theorem prefix_of_prefix_replaceAll {name p : Text} (hp : Apart p) {t : Text}
    (start : p <+: replaceAll literal (reference name) t) : p <+: t := by
  rw [replaceAll_eq_mapLongest hne] at start
  exact prefix_of_prefix_mapLongest (by simpa using hne) (fun _ _ => .inr ⟨name, rfl⟩) hp start

omit hne in
/-- Blanks around a text stay where they are. -/
theorem IsSolid.replaceAll_blank (h : IsSolid literal) {a b : Text} (ha : ∀ c ∈ a, isBlank c)
    (hb : ∀ c ∈ b, isBlank c) (t : Text) :
    replaceAll literal new (a ++ (t ++ b)) = a ++ (replaceAll literal new t ++ b) := by
  have before : ∀ front q, a = front ++ q → q ≠ [] → ¬ literal <+: q ++ (t ++ b) := by
    intro front q text hq start
    obtain ⟨c, q, rfl⟩ := List.exists_cons_of_ne_nil hq
    obtain ⟨d, rest, he⟩ := List.exists_cons_of_ne_nil h.ne_nil
    have solid : isBlank d = false := h.head d (by simp [he])
    rw [he] at start
    rw [(List.cons_prefix_cons.1 start).1, ha c (by simp [text])] at solid
    cases solid
  have after : ∀ front q, literal = front ++ q → front ≠ [] → q ≠ [] → ¬ q <+: b := by
    intro front q text _ hq start
    have last : literal.getLast? = some (q.getLast hq) := by
      rw [text, List.getLast?_append_of_ne_nil _ hq, List.getLast?_eq_some_getLast hq]
    have solid := h.last _ last
    rw [hb _ (start.subset (List.getLast_mem hq))] at solid
    cases solid
  have outside : ¬ literal <:+: b := by
    intro inside
    have mem := List.getLast_mem h.ne_nil
    have solid := h.last _ (List.getLast?_eq_some_getLast h.ne_nil)
    rw [hb _ (inside.subset mem)] at solid
    cases solid
  rw [replaceAll_front h.ne_nil before, replaceAll_append h.ne_nil after,
    replaceAll_of_not_infix h.ne_nil outside]

end DesignTokens.Text
