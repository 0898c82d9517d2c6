import DesignTokens.Font.Shorthand
import DesignTokens.Proofs.CharClasses
import DesignTokens.Proofs.LetterCases
import DesignTokens.Proofs.TextCuts

/-!
Weights are found among the words of a text. A word is a longest run of letters, digits and
underscores; the first weight of an ascii text is the first of its words that is a weight in some
letter case, wherever this word stands.
-/
namespace DesignTokens

namespace Text

/-- Text without characters beyond ascii. -/
def IsAscii (t : Text) : Prop := ∀ c ∈ t, c.toNat < 128

theorem isAscii_of_all {t : Text} (h : t.all fun c => decide (c.toNat < 128)) : IsAscii t :=
  fun c hc => of_decide_eq_true (List.all_eq_true.1 h c hc)

/-- The runs of word characters between the others, empty ones among them. -/
def wordRuns (t : Text) : List Text := t.splitOnP fun c => !isWord c

theorem letterClass_of_lt {c : Char} (h : c.toNat < 128) : letterClass c = c.toLower := if_pos h

theorem isPrefixNoCase_iff_of_isAscii {p t : Text} (hp : IsAscii p) (ht : IsAscii t) :
    isPrefixNoCase p t ↔ p.map Char.toLower <+: t.map Char.toLower := by
  induction p generalizing t with
  | nil => simp [isPrefixNoCase]
  | cons a p ih =>
      cases t with
      | nil => simp [isPrefixNoCase]
      | cons b t =>
          have ha := hp a List.mem_cons_self
          have hb := ht b List.mem_cons_self
          have tails := ih (fun c hc => hp c (.tail _ hc)) fun c hc => ht c (.tail _ hc)
          rw [isPrefixNoCase, Bool.and_eq_true, sameLetter_iff, letterClass_of_lt ha,
            letterClass_of_lt hb, tails, List.map_cons, List.map_cons, List.cons_prefix_cons]

theorem isWord_toLower {c : Char} (h : c.toNat < 128) : isWord c.toLower = isWord c := by
  have same := forall_of_lt_128 (p := fun c => isWord c.toLower == isWord c) (by decide +kernel) h
  exact beq_iff_eq.1 same

theorem wordRuns_cons_of_not {c : Char} (h : isWord c = false) (t : Text) :
    wordRuns (c :: t) = [] :: wordRuns t := by
  rw [wordRuns, List.splitOnP_cons_eq_if_modifyHead, h]
  rfl

theorem wordRuns_cons_of_isWord {c : Char} (h : isWord c) (t : Text) :
    wordRuns (c :: t) = (wordRuns t).modifyHead (List.cons c) := by
  rw [wordRuns, List.splitOnP_cons_eq_if_modifyHead, h]
  rfl

/-- The first run is the word at the start. -/
theorem wordRuns_eq (t : Text) : wordRuns t = t.takeWhile isWord :: (wordRuns t).tail := by
  induction t with
  | nil => rfl
  | cons c t ih =>
      by_cases word : isWord c
      · rw [wordRuns_cons_of_isWord word, List.takeWhile_cons_of_pos word, ih]
        rfl
      · rw [wordRuns_cons_of_not (by simpa using word), List.takeWhile_cons_of_neg word]
        rfl

/-- The first token from a place on. -/
def firstTokenFrom? (r : Recognizer) (before : Option Char) (t : Text) : Option Text :=
  ((piecesFrom r before 0 t).filterMap Piece.token?).head?

theorem firstTokenFrom?_of_none {r : Recognizer} {before : Option Char} {c : Char} {t : Text}
    (h : r before (c :: t) = none) :
    firstTokenFrom? r before (c :: t) = firstTokenFrom? r (some c) t := by
  rw [firstTokenFrom?, piecesFrom, h]
  rfl

theorem firstTokenFrom?_of_some {r : Recognizer} {before : Option Char} {c : Char} {t : Text}
    {n : Nat} (h : r before (c :: t) = some (n + 1)) :
    firstTokenFrom? r before (c :: t) = some (c :: t.take n) := by
  rw [firstTokenFrom?, piecesFrom, h]
  rfl

end Text

open Text

namespace FontShorthand

/-- A word that is a weight in some letter case. -/
def isWeight (word : Text) : Bool := weights.contains (word.map Char.toLower)

theorem isAscii_of_mem_weights {w : Text} (h : w ∈ weights) : IsAscii w := by
  have table : weights.all fun w => w.all fun c => decide (c.toNat < 128) := by decide +kernel
  exact isAscii_of_all (List.all_eq_true.1 table w h)

theorem isPrefixNoCase_weight_iff {w t : Text} (hw : w ∈ weights) (ht : IsAscii t) :
    isPrefixNoCase w t ↔ w <+: t.map Char.toLower := by
  have lower : ∀ w ∈ weights, w.map Char.toLower = w := by decide
  rw [isPrefixNoCase_iff_of_isAscii (isAscii_of_mem_weights hw) ht, lower w hw]

/-- No weight begins another one. -/
theorem eq_of_prefix_of_mem_weights {w w' : Text} (h : w ∈ weights) (h' : w' ∈ weights)
    (hp : w <+: w') : w = w' := by
  have table : ∀ w ∈ weights, ∀ w' ∈ weights, w <+: w' → w = w' := by decide
  exact table w h w' h' hp

theorem isWord_of_isWeight {word : Text} (h : isWeight word) (hw : IsAscii word) :
    ∀ c ∈ word, isWord c := by
  have table : weights.all fun w => w.all isWord := by decide +kernel
  intro c hc
  rw [← isWord_toLower (hw c hc)]
  have letters := List.all_eq_true.1 table _ (List.contains_iff_mem.1 h)
  exact List.all_eq_true.1 letters _ (List.mem_map_of_mem hc)

section Ascii

variable {before : Option Char}

/-- A word that is a weight is found where it starts. -/
theorem weightToken_of_isWeight {word rest : Text} (ascii : IsAscii (word ++ rest))
    (hb : before.any isWord = false) (h : isWeight word) (ends : nextIs isWord rest = false) :
    weightToken before (word ++ rest) = some word.length := by
  have hw : word.map Char.toLower ∈ weights := List.contains_iff_mem.1 h
  have start : word.map Char.toLower <+: (word ++ rest).map Char.toLower :=
    (List.prefix_append word rest).map _
  have found : weights.find? (fun w => isPrefixNoCase w (word ++ rest)) =
      some (word.map Char.toLower) := by
    cases hf : weights.find? fun w => isPrefixNoCase w (word ++ rest) with
    | none =>
        have missing := List.find?_eq_none.1 hf _ hw
        exact absurd ((isPrefixNoCase_weight_iff hw ascii).2 start) missing
    | some w =>
        have hw' := List.mem_of_find?_eq_some hf
        have hp : isPrefixNoCase w (word ++ rest) :=
          List.find?_some (p := fun w => isPrefixNoCase w (word ++ rest)) hf
        have start' := (isPrefixNoCase_weight_iff hw' ascii).1 hp
        rcases List.prefix_or_prefix_of_prefix start' start with first | second
        · rw [eq_of_prefix_of_mem_weights hw' hw first]
        · rw [eq_of_prefix_of_mem_weights hw hw' second]
  rw [weightToken, found]
  simp [hb, ends]

/-- What is found as a weight is a word that is one. -/
theorem exists_of_weightToken {t : Text} (ascii : IsAscii t) {n : Nat}
    (h : weightToken before t = some n) :
    ∃ word rest, t = word ++ rest ∧ n = word.length ∧ isWeight word ∧
      before.any isWord = false ∧ nextIs isWord rest = false := by
  obtain ⟨w, hf, h⟩ := Option.bind_eq_some_iff.1 h
  have hw := List.mem_of_find?_eq_some hf
  have hp : isPrefixNoCase w t := List.find?_some (p := fun w => isPrefixNoCase w t) hf
  have start := (isPrefixNoCase_weight_iff hw ascii).1 hp
  simp only [Option.ite_none_left_eq_some, Bool.or_eq_true, not_or, Bool.not_eq_true,
    Option.some.injEq] at h
  obtain ⟨⟨hb, ends⟩, rfl⟩ := h
  have spelled : (t.take w.length).map Char.toLower = w := by
    rw [List.map_take]
    exact (List.prefix_iff_eq_take.1 start).symm
  refine ⟨t.take w.length, t.drop w.length, (List.take_append_drop _ _).symm, ?_, ?_, hb, ends⟩
  · conv_lhs => rw [← spelled]
    rw [List.length_map]
  · rw [isWeight, spelled]
    exact List.contains_iff_mem.2 hw

/-- Where no word goes on, a weight is found if the word that starts there is one. -/
theorem weightToken_eq {t : Text} (ascii : IsAscii t) (hb : before.any isWord = false) :
    weightToken before t =
      if isWeight (t.takeWhile isWord) then some (t.takeWhile isWord).length else none := by
  have ends := nextIs_dropWhile isWord t
  have whole := List.takeWhile_append_dropWhile (p := isWord) (l := t)
  by_cases weight : isWeight (t.takeWhile isWord)
  · have found := weightToken_of_isWeight (by rwa [whole]) hb weight ends
    rw [whole] at found
    rw [if_pos weight, found]
  · rw [if_neg weight]
    cases h : weightToken before t with
    | none => rfl
    | some n =>
        obtain ⟨word, rest, rfl, -, isWeight, -, stop⟩ := exists_of_weightToken ascii h
        have letters := isWord_of_isWeight isWeight fun c hc =>
          ascii c (List.mem_append_left rest hc)
        rw [takeWhile_append_of_nextIs letters stop] at weight
        exact absurd isWeight weight

/-- Inside of a word no weight starts. -/
theorem weightToken_of_isWord {t : Text} (ascii : IsAscii t) (inside : before.any isWord) :
    weightToken before t = none := by
  rw [Option.eq_none_iff_forall_ne_some]
  intro n found
  obtain ⟨-, -, -, -, -, free, -⟩ := exists_of_weightToken ascii found
  rw [inside] at free
  cases free

theorem firstTokenFrom?_weightToken {t : Text} (ascii : IsAscii t) :
    firstTokenFrom? weightToken before t =
      if before.any isWord then (wordRuns t).tail.find? isWeight
      else (wordRuns t).find? isWeight := by
  induction t generalizing before with
  | nil => cases before.any isWord <;> rfl
  | cons c t ih =>
      have tail : IsAscii t := fun c hc => ascii c (.tail _ hc)
      have after := @ih (some c) tail
      rw [Option.any_some] at after
      cases hb : before.any isWord with
      | true =>
          rw [firstTokenFrom?_of_none (weightToken_of_isWord ascii hb), after, if_pos rfl]
          by_cases word : isWord c
          · rw [if_pos word, wordRuns_cons_of_isWord word, List.tail_modifyHead]
          · rw [if_neg word, wordRuns_cons_of_not (by simpa using word), List.tail_cons]
      | false =>
          have here := weightToken_eq ascii hb
          rw [if_neg Bool.false_ne_true]
          by_cases word : isWord c
          · rw [List.takeWhile_cons_of_pos word] at here
            rw [wordRuns_eq, List.takeWhile_cons_of_pos word, wordRuns_cons_of_isWord word,
              List.tail_modifyHead]
            by_cases weight : isWeight (c :: t.takeWhile isWord)
            · rw [if_pos weight] at here
              rw [firstTokenFrom?_of_some here, List.find?_cons_of_pos weight,
                ← List.prefix_iff_eq_take.1 (List.takeWhile_prefix isWord)]
            · rw [if_neg weight] at here
              rw [firstTokenFrom?_of_none here, after, if_pos word, List.find?_cons_of_neg weight]
          · have none : isWeight [] = false := rfl
            rw [List.takeWhile_cons_of_neg word, none, if_neg Bool.false_ne_true] at here
            rw [firstTokenFrom?_of_none here, after, if_neg word,
              wordRuns_cons_of_not (by simpa using word),
              List.find?_cons_of_neg (by simp [none])]

end Ascii

/-- The weight of an ascii text is the first of its words that is one. -/
theorem firstToken?_weightToken {t : Text} (ascii : IsAscii t) :
    firstToken? weightToken t = (wordRuns t).find? isWeight :=
  firstTokenFrom?_weightToken ascii

end FontShorthand

end DesignTokens
