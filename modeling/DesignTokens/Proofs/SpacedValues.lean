import DesignTokens.Proofs.CharClasses
import DesignTokens.Proofs.NormalForms

/-!
Values with blanks around them. The words of a text follow from where it has blanks, and a normal
form is made from words, so blanks around a value do not matter to its normal forms. Nor does it
matter to the keywords that every property takes whether a list of font families is in normal form.
-/
namespace DesignTokens

namespace Text

/-- A blank parts the words of a text. -/
theorem words_append_cons {c : Char} (hc : isBlank c) (s t : Text) :
    words (s ++ c :: t) = words s ++ words t := by
  induction s with
  | nil => exact words_cons_of_isBlank hc t
  | cons d s ih =>
      rw [List.cons_append, words.eq_def, words.eq_def (d :: s)]
      cases hd : isBlank d with
      | true => simpa [hd] using ih
      | false =>
          cases s with
          | nil =>
              have rest := words_cons_of_isBlank hc t
              cases hw : words t <;> simp [hd, hc, rest, hw, words]
          | cons e s =>
              rw [List.cons_append] at ih
              have first : words (e :: (s ++ c :: t)) = words (e :: s) ++ words t := ih
              cases hw : words (e :: s) with
              | nil =>
                  cases he : isBlank e <;> cases ht : words t <;> simp_all [words_cons]
              | cons w ws =>
                  cases he : isBlank e <;> simp [hd, he, first, hw]

theorem words_of_blank {t : Text} (h : ∀ c ∈ t, isBlank c) : words t = [] := by
  induction t with
  | nil => rfl
  | cons c t ih =>
      rw [words_cons_of_isBlank (h c (by simp))]
      exact ih fun d hd => h d (by simp [hd])

theorem words_blank_append {a : Text} (ha : ∀ c ∈ a, isBlank c) (t : Text) :
    words (a ++ t) = words t := by
  rcases List.eq_nil_or_concat a with rfl | ⟨front, c, rfl⟩
  · rfl
  · have front_blank : words front = [] := words_of_blank fun d hd => ha d (by simp [hd])
    rw [List.concat_eq_append, List.append_assoc, List.singleton_append,
      words_append_cons (ha c (by simp)), front_blank, List.nil_append]

theorem words_append_blank {b : Text} (hb : ∀ c ∈ b, isBlank c) (t : Text) :
    words (t ++ b) = words t := by
  cases b with
  | nil => rw [List.append_nil]
  | cons c b =>
      have blank : words b = [] := words_of_blank fun d hd => hb d (by simp [hd])
      rw [words_append_cons (hb c (by simp)), blank, List.append_nil]

theorem words_trim (t : Text) : words (trim t) = words t := by
  obtain ⟨a, b, text, ha, hb⟩ := exists_trim t
  conv_rhs => rw [text, words_blank_append ha, words_append_blank hb]

theorem solid_of_mem_words {t w : Text} (h : w ∈ words t) : w ≠ [] ∧ ∀ c ∈ w, isBlank c = false := by
  match t with
  | [] => cases h
  | c :: rest =>
      cases hc : isBlank c with
      | true =>
          rw [words_cons_of_isBlank hc] at h
          exact solid_of_mem_words h
      | false =>
          rw [words_cons hc, List.mem_cons] at h
          rcases h with rfl | h
          · refine ⟨by simp, fun d hd => ?_⟩
            rcases List.mem_cons.1 hd with rfl | hd
            · exact hc
            · simpa using List.mem_takeWhile_imp hd
          · exact solid_of_mem_words h
termination_by t.length
decreasing_by
  all_goals
    have := length_dropWhile_le (!isBlank ·) rest
    simp only [List.length_cons]
    omega

theorem words_join {ws : List Text} (h : ∀ w ∈ ws, w ≠ [] ∧ ∀ c ∈ w, isBlank c = false) :
    words (join [' '] ws) = ws := by
  induction ws with
  | nil => rfl
  | cons w ws ih =>
      have first := words_of_solid (h w (by simp)).1 (h w (by simp)).2
      cases ws with
      | nil => exact first
      | cons w' ws =>
          have rest := ih fun x hx => h x (by simp [hx])
          rw [join, List.append_assoc, List.singleton_append, words_append_cons rfl, first, rest]
          · rfl
          · simp

theorem blank_of_words {t : Text} (h : words t = []) : ∀ c ∈ t, isBlank c := by
  induction t with
  | nil => exact fun _ hc => nomatch hc
  | cons c t ih =>
      cases hc : isBlank c with
      | true =>
          rw [words_cons_of_isBlank hc] at h
          exact List.forall_mem_cons.2 ⟨hc, ih h⟩
      | false =>
          rw [words_cons hc] at h
          cases h

/-- A text with one word is this word with blanks around it. -/
theorem trim_eq_of_words {t w : Text} (h : words t = [w]) : trim t = w := by
  induction t with
  | nil => cases h
  | cons c t ih =>
      cases hc : isBlank c with
      | true =>
          rw [words_cons_of_isBlank hc] at h
          rw [trim_cons_of_blank hc, ih h]
      | false =>
          have cut := List.takeWhile_append_dropWhile (p := (!isBlank ·)) (l := t)
          rw [words_cons hc] at h
          obtain ⟨rfl, rest⟩ := List.cons.inj h
          have solid : ∀ d ∈ c :: t.takeWhile (!isBlank ·), isBlank d = false :=
            List.forall_mem_cons.2 ⟨hc, fun d hd => by simpa using List.mem_takeWhile_imp hd⟩
          have trimmed := trim_append_of_solid solid (blank_of_words rest)
          rwa [List.cons_append, cut] at trimmed

/-- The pieces of a text have the same words with or without blanks around the text. -/
theorem map_words_splitOn {sep : Char} (hsep : isBlank sep = false) {a b : Text}
    (ha : ∀ c ∈ a, isBlank c) (hb : ∀ c ∈ b, isBlank c) (t : Text) :
    (splitOn sep (a ++ (t ++ b))).map words = (splitOn sep t).map words := by
  have outside {s : Text} (h : ∀ c ∈ s, isBlank c) : sep ∉ s := by
    intro mem
    simp [h sep mem] at hsep
  match hc : cut sep t with
  | (front, none) =>
      obtain ⟨rfl, plain⟩ := eq_of_cut_none hc
      have whole : sep ∉ a ++ (t ++ b) := by simp [plain, outside ha, outside hb]
      rw [splitOn_of_notMem whole, splitOn_of_notMem plain, List.map_singleton,
        words_blank_append ha, words_append_blank hb]
      rfl
  | (front, some rest) =>
      obtain ⟨text, plain⟩ := eq_of_cut_some hc
      have whole : sep ∉ a ++ front := by simp [plain, outside ha]
      have others := map_words_splitOn hsep (a := []) (by simp) hb rest
      have regroup : a ++ (t ++ b) = (a ++ front) ++ sep :: (rest ++ b) := by simp [text]
      rw [regroup, splitOn_append_cons whole, List.map_cons, words_blank_append ha]
      conv_rhs => rw [text, splitOn_append_cons plain, List.map_cons]
      exact congrArg _ others
termination_by t.length
decreasing_by
  exact length_cut_tail (congrArg Prod.snd hc)

theorem splitOn_ne_nil (sep : Char) (t : Text) : splitOn sep t ≠ [] := by
  cases t with
  | nil => simp [splitOn]
  | cons c t =>
      rw [splitOn]
      split_ifs
      · simp
      · split <;> simp

/-! ### Letter case -/

/-- A character that is its own lower case is kept in lower case. -/
theorem mem_lower_of_mem {t : Text} {c : Char} (h : c ∈ t) (same : lowerChar c = c)
    (sigma : c ≠ 'Σ') (dotted : c ≠ 'İ') : c ∈ lower t := by
  have main (before : Bool) : c ∈ lowerFrom before t := by
    induction t generalizing before with
    | nil => cases h
    | cons d t ih =>
        rw [lowerFrom, List.mem_append]
        rcases List.mem_cons.1 h with rfl | h
        · rw [if_neg sigma, if_neg dotted, same]
          exact .inl List.mem_cons_self
        · exact .inr (ih h _)
  rw [lower]
  split_ifs with ascii
  · have small : c.toNat < 128 := by simpa using List.all_eq_true.1 ascii c h
    rw [lowerChar, if_pos small] at same
    exact List.mem_map.2 ⟨c, h, same⟩
  · exact main false

theorem lowerChar_of_isBlank {c : Char} (h : isBlank c) : lowerChar c = c ∧ c ≠ 'Σ' ∧ c ≠ 'İ' := by
  have tested : decide (lowerChar c = c ∧ c ≠ 'Σ' ∧ c ≠ 'İ') := by
    refine forall_of_inRanges (p := fun c => decide (lowerChar c = c ∧ c ≠ 'Σ' ∧ c ≠ 'İ')) ?_ h
    decide +kernel
  simpa using tested

end Text

open Text

namespace Value

theorem shadow_trim (v : Text) : shadow (trim v) = shadow v := by
  rw [shadow, shadow, collapsed, collapsed, words_trim]

theorem radius_trim (v : Text) : radius (trim v) = radius v := by
  have slash : isBlank '/' = false := by decide
  have copied {s : Text} (h : ∀ c ∈ s, isBlank c) :
      s.flatMap (fun c => if c = '/' then [' ', '/', ' '] else [c]) = s := by
    induction s with
    | nil => rfl
    | cons c s ih =>
        have hne : c ≠ '/' := by
          rintro rfl
          simp [h '/' (by simp)] at slash
        rw [List.flatMap_cons, if_neg hne, ih fun d hd => h d (by simp [hd])]
        rfl
  obtain ⟨a, b, text, ha, hb⟩ := exists_trim v
  conv_rhs => rw [text]
  rw [radius, radius, replaceAll_slash, replaceAll_slash, List.flatMap_append, List.flatMap_append,
    copied ha, copied hb, collapsed, collapsed, words_blank_append ha, words_append_blank hb]

theorem fontFamily_trim (v : Text) : fontFamily (trim v) = fontFamily v := by
  obtain ⟨a, b, text, ha, hb⟩ := exists_trim v
  have words := @map_words_splitOn ',' (by decide) a b ha hb (trim v)
  have collapsed_eq : collapsed = join [' '] ∘ Text.words := rfl
  rw [← text] at words
  rw [fontFamily, fontFamily, collapsed_eq, ← List.map_map, ← List.map_map, words]

/-! ### Keywords that every property takes -/

/-- A keyword is one word. -/
theorem isWideKeyword_iff {v : Text} :
    isWideKeyword v ↔ ∃ w, words v = [w] ∧ lower w ∈ wideKeywords := by
  rw [isWideKeyword, List.contains_iff_mem]
  constructor
  · intro h
    have solid : ∀ c ∈ trim v, isBlank c = false := by
      intro c hc
      by_contra blank
      obtain ⟨same, sigma, dotted⟩ := lowerChar_of_isBlank (by simpa using blank)
      have keywords : ∀ k ∈ wideKeywords, k.all fun c => !isBlank c := by decide
      have inside := mem_lower_of_mem hc same sigma dotted
      exact blank (by simpa using List.all_eq_true.1 (keywords _ h) c inside)
    have hne : trim v ≠ [] := by
      intro empty
      rw [empty] at h
      exact absurd h (by decide)
    exact ⟨trim v, by rw [← words_trim, words_of_solid hne solid], h⟩
  · rintro ⟨w, hw, h⟩
    rwa [trim_eq_of_words hw]

theorem isWideKeyword_congr {v v' : Text} (h : words v = words v') :
    isWideKeyword v = isWideKeyword v' := by
  rw [Bool.eq_iff_iff, isWideKeyword_iff, isWideKeyword_iff, h]

theorem notMem_of_isWideKeyword {v : Text} (h : isWideKeyword v) : ',' ∉ v := by
  intro comma
  have inside : ',' ∈ trim v := by
    have blank : isBlank ',' = false := by decide
    have solid : IsSolid [','] := ⟨by simp, by simpa using blank, by simpa using blank⟩
    rw [← List.singleton_infix_iff] at comma ⊢
    exact (solid.infix_trim_iff v).2 comma
  rw [isWideKeyword, List.contains_iff_mem] at h
  have keywords : ∀ k ∈ wideKeywords, ',' ∉ k := by decide
  exact keywords _ h (mem_lower_of_mem inside (by decide) (by decide) (by decide))

/-- A list of font families is a keyword if its normal form is. -/
theorem isWideKeyword_fontFamily (v : Text) : isWideKeyword (fontFamily v) = isWideKeyword v := by
  by_cases comma : ',' ∈ v
  · have inside : ',' ∈ fontFamily v := by
      obtain ⟨front, rest, rfl, plain⟩ := List.eq_append_cons_of_mem comma
      obtain ⟨piece, pieces, hp⟩ := List.exists_cons_of_ne_nil (splitOn_ne_nil ',' rest)
      rw [fontFamily, splitOn_append_cons plain, hp]
      simp [join]
    rw [Bool.eq_iff_iff]
    exact iff_of_false (fun h => notMem_of_isWideKeyword h inside)
      fun h => notMem_of_isWideKeyword h comma
  · rw [fontFamily, splitOn_of_notMem comma]
    exact isWideKeyword_congr (words_join fun w hw => solid_of_mem_words hw)

end Value

end DesignTokens
