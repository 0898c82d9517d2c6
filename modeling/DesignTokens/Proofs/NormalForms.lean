import DesignTokens.Proofs.TextCuts
import DesignTokens.Stylesheet.Value
import Mathlib.Data.List.Infix

/-!
What the normal forms of whole values keep: a text without blanks occurs in a normal form if and
only if it occurs in the value, as long as it holds none of the separators that get blanks.
-/
namespace DesignTokens

namespace Text

theorem words_cons_of_isBlank {c : Char} (hc : isBlank c) (rest : Text) :
    words (c :: rest) = words rest := by
  rw [words.eq_def]
  simp [hc]

theorem words_cons {c : Char} (hc : isBlank c = false) (rest : Text) :
    words (c :: rest) =
      (c :: rest.takeWhile (!isBlank ·)) :: words (rest.dropWhile (!isBlank ·)) := by
  induction rest generalizing c with
  | nil => simp [words, hc]
  | cons d rest ih =>
      cases hd : isBlank d with
      | true =>
          have skipped := words_cons_of_isBlank hd rest
          rw [words.eq_def]
          cases hw : words rest with
          | nil => simp [hc, hd, skipped, hw]
          | cons word others => simp [hc, hd, skipped, hw]
      | false =>
          rw [words.eq_def]
          simp [hc, hd, ih hd]

theorem words_of_solid {t : Text} (hne : t ≠ []) (h : ∀ c ∈ t, isBlank c = false) :
    words t = [t] := by
  obtain ⟨c, t, rfl⟩ := List.exists_cons_of_ne_nil hne
  have run : t.takeWhile (!isBlank ·) = t := List.takeWhile_eq_self_iff.2 fun d hd => by
    simp [h d (by simp [hd])]
  have rest : t.dropWhile (!isBlank ·) = [] := List.dropWhile_eq_nil_iff.2 fun d hd => by
    simp [h d (by simp [hd])]
  rw [words_cons (h c (by simp)), run, rest, words]

theorem infix_cons_iff_of_notMem {p : Text} (hne : p ≠ []) {c : Char} (hc : c ∉ p) (t : Text) :
    p <:+: c :: t ↔ p <:+: t := by
  have parted : p <:+: c :: t ↔ p <:+: [] ∨ p <:+: t := @infix_append_cons_iff p [] t c hc
  rw [parted, List.infix_nil, or_iff_right hne]

theorem exists_word_iff {p : Text} (hp : ∀ c ∈ p, isBlank c = false) (hne : p ≠ []) (t : Text) :
    (∃ w ∈ words t, p <:+: w) ↔ p <:+: t := by
  have solid {c : Char} (hc : isBlank c) : c ∉ p := fun h => by simp [hp c h] at hc
  match t with
  | [] => simp [words, hne]
  | c :: rest =>
      cases hc : isBlank c with
      | true =>
          rw [words_cons_of_isBlank hc, infix_cons_iff_of_notMem hne (solid hc)]
          exact exists_word_iff hp hne rest
      | false =>
          have others := exists_word_iff hp hne (rest.dropWhile (!isBlank ·))
          have cut := List.takeWhile_append_dropWhile (p := (!isBlank ·)) (l := rest)
          rw [words_cons hc, List.exists_mem_cons_iff, others]
          cases hd : rest.dropWhile (!isBlank ·) with
          | nil =>
              rw [hd, List.append_nil] at cut
              simp [cut, hne]
          | cons d after =>
              have blank : isBlank d := by simpa using of_dropWhile_eq_cons hd
              rw [hd] at cut
              conv_rhs => rw [← cut, ← List.cons_append, infix_append_cons_iff (solid blank)]
              rw [infix_cons_iff_of_notMem hne (solid blank)]
termination_by t.length
decreasing_by
  all_goals
    have := length_dropWhile_le (!isBlank ·) rest
    simp only [List.length_cons]
    omega

/-- What holds no character of a separator occurs in a joined text if it occurs in a part. -/
theorem infix_join_iff {p sep : Text} (hne : p ≠ []) (hsep : sep ≠ []) (hp : ∀ c ∈ sep, c ∉ p)
    (ts : List Text) : p <:+: join sep ts ↔ ∃ t ∈ ts, p <:+: t := by
  have afterSep {sep : Text} (hp : ∀ c ∈ sep, c ∉ p) (b : Text) : p <:+: sep ++ b ↔ p <:+: b := by
    induction sep with
    | nil => rfl
    | cons c sep ih =>
        rw [List.cons_append, infix_cons_iff_of_notMem hne (hp c (by simp))]
        exact ih fun d hd => hp d (by simp [hd])
  obtain ⟨c, sep, rfl⟩ := List.exists_cons_of_ne_nil hsep
  have parted (a b : Text) : p <:+: a ++ (c :: sep) ++ b ↔ p <:+: a ∨ p <:+: b := by
    rw [List.append_assoc, List.cons_append, infix_append_cons_iff (hp c (by simp)),
      afterSep fun d hd => hp d (by simp [hd])]
  induction ts with
  | nil => simp [join, hne]
  | cons t ts ih =>
      cases ts with
      | nil => simp [join]
      | cons t' ts =>
          have others := (parted t (join (c :: sep) (t' :: ts))).trans (or_congr_right ih)
          simpa [join] using others

theorem splitOn_of_notMem {sep : Char} {t : Text} (h : sep ∉ t) : splitOn sep t = [t] := by
  induction t with
  | nil => rfl
  | cons c t ih =>
      simp only [List.mem_cons, not_or] at h
      simp [splitOn, Ne.symm h.1, ih h.2]

theorem splitOn_append_cons {sep : Char} {a : Text} (h : sep ∉ a) (b : Text) :
    splitOn sep (a ++ sep :: b) = a :: splitOn sep b := by
  induction a with
  | nil => simp [splitOn]
  | cons c a ih =>
      simp only [List.mem_cons, not_or] at h
      simp [splitOn, Ne.symm h.1, ih h.2]

/-- Pieces that hold no separator are found again; blanks behind a separator go to the next one. -/
theorem splitOn_join {sep : Char} {blank t : Text} {ts : List Text} (hb : sep ∉ blank)
    (h : ∀ u ∈ t :: ts, sep ∉ u) :
    splitOn sep (join (sep :: blank) (t :: ts)) = t :: ts.map (blank ++ ·) := by
  induction ts generalizing t with
  | nil => exact splitOn_of_notMem (h t List.mem_cons_self)
  | cons u ts ih =>
      have spaced : blank ++ join (sep :: blank) (u :: ts) =
          join (sep :: blank) ((blank ++ u) :: ts) := by
        cases ts with
        | nil => rfl
        | cons v ts => simp only [join, List.append_assoc]
      have plain : ∀ v ∈ (blank ++ u) :: ts, sep ∉ v := by
        rw [List.forall_mem_cons, List.mem_append, not_or]
        exact ⟨⟨hb, h u (by simp)⟩, fun v hv => h v (by simp [hv])⟩
      have whole : join (sep :: blank) (t :: u :: ts) =
          t ++ sep :: (blank ++ join (sep :: blank) (u :: ts)) := List.append_assoc _ _ _
      rw [whole, splitOn_append_cons (h t List.mem_cons_self), spaced, ih plain, List.map_cons]

theorem exists_piece_iff {p : Text} {sep : Char} (hp : sep ∉ p) (t : Text) :
    (∃ piece ∈ splitOn sep t, p <:+: piece) ↔ p <:+: t := by
  match hc : cut sep t with
  | (a, none) =>
      obtain ⟨rfl, plain⟩ := eq_of_cut_none hc
      simp [splitOn_of_notMem plain]
  | (a, some b) =>
      obtain ⟨ht, plain⟩ := eq_of_cut_some hc
      have others := exists_piece_iff hp b
      conv_lhs => rw [ht, splitOn_append_cons plain, List.exists_mem_cons_iff, others]
      rw [ht, infix_append_cons_iff hp]
termination_by t.length
decreasing_by
  exact length_cut_tail (congrArg Prod.snd hc)

theorem replaceAll_slash (t : Text) :
    replaceAll ['/'] " / ".toList t = t.flatMap fun c => if c = '/' then [' ', '/', ' '] else [c] := by
  have main (before : Option Char) : (piecesFrom (literalToken ['/']) before 0 t).flatMap
      (Piece.mapToken fun _ => " / ".toList) =
        t.flatMap fun c => if c = '/' then [' ', '/', ' '] else [c] := by
    induction t generalizing before with
    | nil => rfl
    | cons c t ih =>
        by_cases h : c = '/'
        · have taken : literalToken ['/'] before (c :: t) = some 1 := by
            simp [literalToken, h]
          rw [piecesFrom, taken, List.flatMap_cons, List.flatMap_cons, ih, if_pos h]
          rfl
        · have skipped : literalToken ['/'] before (c :: t) = none := by
            simp [literalToken, Ne.symm h]
          rw [piecesFrom, skipped, List.flatMap_cons, List.flatMap_cons, ih, if_neg h]
          rfl
  exact main none

end Text

namespace Value

open Text

variable {p : Text} (hp : ∀ c ∈ p, isBlank c = false) (hne : p ≠ [])
include hp hne

theorem infix_collapsed_iff (value : Text) : p <:+: collapsed value ↔ p <:+: value := by
  have solid : ∀ c ∈ [' '], c ∉ p := by
    intro c hc h
    obtain rfl := List.mem_singleton.1 hc
    exact absurd (hp _ h) (by decide)
  rw [collapsed, infix_join_iff hne (by simp) solid, exists_word_iff hp hne]

theorem infix_fontFamily_iff (hcomma : ',' ∉ p) (value : Text) :
    p <:+: fontFamily value ↔ p <:+: value := by
  have solid : ∀ c ∈ ", ".toList, c ∉ p := by
    intro c hc h
    have separators : ∀ c ∈ ", ".toList, c = ',' ∨ isBlank c :=
      List.forall_iff_forall_mem.1 (by decide)
    rcases separators c hc with rfl | blank
    · exact hcomma h
    · simp [hp c h] at blank
  rw [fontFamily, infix_join_iff hne (by decide) solid, ← exists_piece_iff hcomma value]
  simp [infix_collapsed_iff hp hne]

theorem infix_radius_iff (hslash : '/' ∉ p) (value : Text) :
    p <:+: radius value ↔ p <:+: value := by
  have blank : ' ' ∉ p := fun h => absurd (hp _ h) (by decide)
  have starts (t : Text) : ∀ q, '/' ∉ q → ' ' ∉ q →
      (q <+: t.flatMap (fun c => if c = '/' then [' ', '/', ' '] else [c]) ↔ q <+: t) := by
    induction t with
    | nil => simp
    | cons c t ih =>
        intro q hs hb
        cases q with
        | nil => simp
        | cons d q =>
            simp only [List.mem_cons, not_or] at hs hb
            by_cases h : c = '/'
            · simp [h, List.cons_prefix_cons, Ne.symm hs.1, Ne.symm hb.1]
            · simp [h, List.cons_prefix_cons, ih q hs.2 hb.2]
  rw [radius, infix_collapsed_iff hp hne, replaceAll_slash]
  induction value with
  | nil => rfl
  | cons c value ih =>
      by_cases h : c = '/'
      · have slash (t : Text) : p <:+: ' ' :: '/' :: ' ' :: t ↔ p <:+: t := by
          rw [infix_cons_iff_of_notMem hne blank, infix_cons_iff_of_notMem hne hslash,
            infix_cons_iff_of_notMem hne blank]
        subst h
        rw [infix_cons_iff_of_notMem hne hslash]
        exact (slash _).trans ih
      · have first := starts (c :: value) p hslash blank
        rw [List.flatMap_cons, if_neg h, List.singleton_append] at first ⊢
        rw [List.infix_cons_iff, List.infix_cons_iff, first]
        exact or_congr_right ih

end Value

end DesignTokens
