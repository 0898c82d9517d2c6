import DesignTokens.Proofs.LetterCases
import DesignTokens.Proofs.SpacedValues

/-!
Lower case part by part. Only a capital sigma looks beyond itself, and no further than to a
character that is neither a letter with case nor passed over; blanks and the marks of a call are
such characters. So the lower case of a text is that of its parts between them.
-/
namespace DesignTokens.Text

/-- What the letters before and after it do not look beyond, and what is its own lower case. -/
def isCaseless (c : Char) : Bool :=
  !isCased c && !isCaseIgnorable c && lowerChar c == c && c != 'Σ' && c != 'İ'

theorem isCaseless_of_isBlank {c : Char} (h : isBlank c) : isCaseless c := by
  refine forall_of_inRanges (p := isCaseless) ?_ h
  decide +kernel

theorem isCaseless_of_mem {c : Char} (h : c ∈ ['(', ')', ',', '/']) : isCaseless c := by
  have all : ['(', ')', ',', '/'].all isCaseless := by decide +kernel
  exact List.all_eq_true.1 all c h

theorem casedAhead_append_cons {c : Char} (hc : isCaseless c) (s t : Text) :
    casedAhead (s ++ c :: t) = casedAhead s := by
  simp only [isCaseless, Bool.and_eq_true, Bool.not_eq_true'] at hc
  obtain ⟨⟨⟨⟨cased, ignorable⟩, -⟩, -⟩, -⟩ := hc
  induction s with
  | nil => simp [casedAhead, ignorable, nextIs, cased]
  | cons d s ih =>
      rw [casedAhead, casedAhead] at ih
      rw [casedAhead, casedAhead, List.cons_append, List.dropWhile_cons, List.dropWhile_cons]
      cases isCaseIgnorable d with
      | true => simpa using ih
      | false => simp [nextIs]

theorem lowerFrom_append_cons {c : Char} (hc : isCaseless c) (before : Bool) (s t : Text) :
    lowerFrom before (s ++ c :: t) = lowerFrom before s ++ c :: lowerFrom false t := by
  induction s generalizing before with
  | nil =>
      simp only [isCaseless, Bool.and_eq_true, Bool.not_eq_true', beq_iff_eq, bne_iff_ne] at hc
      obtain ⟨⟨⟨⟨cased, ignorable⟩, same⟩, sigma⟩, dotted⟩ := hc
      simp [lowerFrom, sigma, dotted, same, ignorable, cased]
  | cons d s ih =>
      rw [List.cons_append, lowerFrom, lowerFrom, casedAhead_append_cons hc, ih, List.append_assoc]

theorem lower_eq_lowerFrom (t : Text) : lower t = lowerFrom false t := by
  have ascii (before : Bool) (h : ∀ c ∈ t, c.toNat < 128) :
      lowerFrom before t = t.map Char.toLower := by
    induction t generalizing before with
    | nil => rfl
    | cons c t ih =>
        have small := h c List.mem_cons_self
        have sigma : c ≠ 'Σ' := by
          rintro rfl
          exact absurd small (by decide)
        have dotted : c ≠ 'İ' := by
          rintro rfl
          exact absurd small (by decide)
        rw [lowerFrom, if_neg sigma, if_neg dotted, lowerChar, if_pos small,
          ih _ fun d hd => h d (.tail _ hd), List.map_cons, List.singleton_append]
  rw [lower]
  split_ifs with all
  · exact (ascii false (by simpa using all)).symm
  · rfl

/-- Characters that are their own lower case make a text that is. -/
theorem lower_of_unchanged {t : Text} (h : ∀ c ∈ t, lowerChar c = c ∧ c ≠ 'Σ' ∧ c ≠ 'İ') :
    lower t = t := by
  have main (before : Bool) : lowerFrom before t = t := by
    induction t generalizing before with
    | nil => rfl
    | cons c t ih =>
        obtain ⟨same, sigma, dotted⟩ := h c List.mem_cons_self
        rw [lowerFrom, if_neg sigma, if_neg dotted, same, ih fun d hd => h d (.tail _ hd)]
        rfl
  rw [lower_eq_lowerFrom, main]

/-- Digits of any script are their own lower case. -/
theorem lowerChar_of_isDigit {c : Char} (h : isDigit c) : lowerChar c = c := by
  by_cases ascii : c.toNat < 128
  · have table := forall_of_lt_128 (p := fun c => !isDigit c || lowerChar c == c)
      (by decide +kernel) ascii
    simpa [h] using table
  · rw [isDigit, digit?, if_neg ascii] at h
    obtain ⟨first, hz, k, hk, hc⟩ := exists_first_of_digitIn h
    have apart : digitZeros.all fun first => lowerRuns.all fun run =>
        run.last < first || first + 9 < run.first := by decide +kernel
    have lowered : lowerIn lowerRuns c.toNat = c.toNat := by
      rcases lowerIn_cases lowerRuns c.toNat with same | ⟨run, hr, low, high, -⟩
      · exact same
      · have := List.all_eq_true.1 (List.all_eq_true.1 apart first hz) run hr
        simp only [Bool.or_eq_true, decide_eq_true_eq] at this
        omega
    rw [lowerChar, if_neg ascii, lowered, Char.ofNat_toNat]

/-- A character without case parts the lower case of a text. -/
theorem lower_append_cons {c : Char} (hc : isCaseless c) (s t : Text) :
    lower (s ++ c :: t) = lower s ++ c :: lower t := by
  rw [lower_eq_lowerFrom, lower_eq_lowerFrom s, lower_eq_lowerFrom t, lowerFrom_append_cons hc]

theorem lower_blank_append {u : Text} (hu : ∀ c ∈ u, isBlank c) (t : Text) :
    lower (u ++ t) = u ++ lower t := by
  induction u with
  | nil => rfl
  | cons c u ih =>
      have first := lower_append_cons (isCaseless_of_isBlank (hu c List.mem_cons_self)) [] (u ++ t)
      rw [ih fun d hd => hu d (.tail _ hd)] at first
      exact first

theorem lower_append_blank {v : Text} (hv : ∀ c ∈ v, isBlank c) (t : Text) :
    lower (t ++ v) = lower t ++ v := by
  cases v with
  | nil => rw [List.append_nil, List.append_nil]
  | cons c v =>
      have rest : lower v = v := by
        have whole := lower_blank_append (fun d hd => hv d (.tail c hd)) []
        rwa [List.append_nil, show lower [] = [] from rfl, List.append_nil] at whole
      rw [lower_append_cons (isCaseless_of_isBlank (hv c List.mem_cons_self)), rest]

/-- No letter has a blank as its lower case. -/
theorem isBlank_of_isBlank_lowerChar {c : Char} (h : isBlank (lowerChar c)) : isBlank c := by
  rw [lowerChar] at h
  split_ifs at h with ascii
  · have table : ∀ n < 128, isBlank (Char.ofNat n).toLower → isBlank (Char.ofNat n) := by
      decide +kernel
    have blank := table c.toNat ascii
    rw [Char.ofNat_toNat] at blank
    exact blank h
  · have runs : ∀ run ∈ lowerRuns, ∀ r ∈ blankRanges,
        run.last + run.shift < r.1 ∨ (r.2 : Int) < run.first + run.shift := by
      have all : lowerRuns.all fun run => blankRanges.all fun r =>
          decide (run.last + run.shift < r.1 ∨ (r.2 : Int) < run.first + run.shift) := by
        decide +kernel
      exact fun run hr r hb => of_decide_eq_true
        (List.all_eq_true.1 (List.all_eq_true.1 all run hr) r hb)
    have valid : (Char.ofNat (lowerIn lowerRuns c.toNat)).toNat = lowerIn lowerRuns c.toNat := by
      rw [Char.toNat_ofNat] at *
      split_ifs with valid
      · rfl
      · rw [isBlank, Char.toNat_ofNat, if_neg valid] at h
        exact absurd h (by decide)
    rw [isBlank, valid] at h
    rcases lowerIn_cases lowerRuns c.toNat with same | ⟨run, hr, first, last, lowered⟩
    · rwa [same] at h
    · exfalso
      obtain ⟨r, hb, low, high⟩ := exists_range_of_inRanges h
      have positive : ∀ r ∈ blankRanges, 0 < r.1 := by decide
      have := positive r hb
      rcases runs run hr r hb with below | above <;> omega

theorem solid_lower {t : Text} (h : ∀ c ∈ t, isBlank c = false) :
    ∀ c ∈ lower t, isBlank c = false := by
  have main (t : Text) (before : Bool) (h : ∀ c ∈ t, isBlank c = false) :
      ∀ c ∈ lowerFrom before t, isBlank c = false := by
    induction t generalizing before with
    | nil => exact fun _ hc => nomatch hc
    | cons d t ih =>
        intro c hc
        rw [lowerFrom, List.mem_append] at hc
        rcases hc with spelled | later
        · have spellings : ∀ e ∈ ['ς', 'σ', 'i', '\u0307'], isBlank e = false :=
            List.forall_iff_forall_mem.1 (by decide)
          split_ifs at spelled
          · exact spellings c (List.mem_append_left ['σ', 'i', '\u0307'] spelled)
          · exact spellings c (.tail _ (List.mem_append_left ['i', '\u0307'] spelled))
          · exact spellings c (.tail _ (.tail _ spelled))
          · rw [List.mem_singleton.1 spelled, ← Bool.not_eq_true]
            exact fun blank =>
              absurd (isBlank_of_isBlank_lowerChar blank) (by simp [h d List.mem_cons_self])
        · exact ih _ (fun e he => h e (.tail _ he)) c later
  rw [lower_eq_lowerFrom]
  exact main t false h

theorem lower_ne_nil {t : Text} (h : t ≠ []) : lower t ≠ [] := by
  obtain ⟨c, t, rfl⟩ := List.exists_cons_of_ne_nil h
  rw [lower_eq_lowerFrom, lowerFrom]
  split_ifs <;> simp

end DesignTokens.Text
