import DesignTokens.Text.LetterCase
import Mathlib

/-!
Prefixes up to letter case. They obey the laws of prefixes, since letters are compared by their
class. Lower case changes nothing below the letters, and makes nothing that is there.
-/
namespace DesignTokens.Text

theorem sameLetter_iff {a b : Char} : sameLetter a b ↔ letterClass a = letterClass b := by
  simp [sameLetter]

theorem isPrefixNoCase_of_start {p t : Text} (h : p <+: t) : isPrefixNoCase p t := by
  induction p generalizing t with
  | nil => rfl
  | cons a p ih =>
      obtain ⟨rest, rfl⟩ := h
      simp [isPrefixNoCase, sameLetter_iff, ih (List.prefix_append p rest)]

theorem isPrefixNoCase_of_length_le {p q t : Text} (hp : isPrefixNoCase p t)
    (hq : isPrefixNoCase q t) (h : p.length ≤ q.length) : isPrefixNoCase p q := by
  induction p generalizing q t with
  | nil => rfl
  | cons a p ih =>
      cases q with
      | nil => simp at h
      | cons b q =>
          cases t with
          | nil => cases hp
          | cons c t =>
              simp only [isPrefixNoCase, Bool.and_eq_true, sameLetter_iff] at hp hq ⊢
              exact ⟨hp.1.trans hq.1.symm, ih hp.2 hq.2 (by simpa using h)⟩

theorem isPrefixNoCase_drop {p t : Text} (h : isPrefixNoCase p t) (i : Nat) :
    isPrefixNoCase (p.drop i) (t.drop i) := by
  induction i generalizing p t with
  | zero => exact h
  | succ i ih =>
      cases p with
      | nil => rfl
      | cons a p =>
          cases t with
          | nil => cases h
          | cons b t =>
              simp only [isPrefixNoCase, Bool.and_eq_true] at h
              exact ih h.2

theorem containsNoCase_of_drop {part t : Text} {i : Nat} (h : isPrefixNoCase part (t.drop i)) :
    containsNoCase part t := by
  induction t generalizing i with
  | nil =>
      cases part with
      | nil => rfl
      | cons c part => simp [isPrefixNoCase] at h
  | cons c t ih =>
      rw [containsNoCase, Bool.or_eq_true]
      cases i with
      | zero => exact .inl h
      | succ i => exact .inr (ih h)

theorem le_lowerIn {runs : List CaseRun} {low n : Nat}
    (h : ∀ run ∈ runs, (low : Int) ≤ run.first + run.shift) (hn : low ≤ n) :
    low ≤ lowerIn runs n := by
  induction runs with
  | nil => exact hn
  | cons run runs ih =>
      have first := h run (by simp)
      rw [lowerIn]
      split_ifs with before inside
      · exact hn
      · omega
      · exact ih fun run hr => h run (by simp [hr])

/-- No other character has a lower case that is below the letters. -/
theorem eq_of_lowerChar {c d : Char} (h : lowerChar c = d) (pos : 0 < d.toNat)
    (low : d.toNat < 65) : c = d := by
  rw [lowerChar] at h
  split_ifs at h with ascii
  · have table : ∀ n < 128, (Char.ofNat n).toLower.toNat < 65 →
        Char.ofNat n = (Char.ofNat n).toLower := by decide
    have same := table c.toNat ascii
    rw [Char.ofNat_toNat, h] at same
    exact same low
  · have runs : ∀ run ∈ lowerRuns, ((65 : Nat) : Int) ≤ run.first + run.shift := by
      have all : lowerRuns.all fun run => decide (((65 : Nat) : Int) ≤ run.first + run.shift) := by
        decide +kernel
      exact fun run hr => of_decide_eq_true (List.all_eq_true.1 all run hr)
    have above : 65 ≤ lowerIn lowerRuns c.toNat := le_lowerIn runs (by omega)
    rw [← h, Char.toNat_ofNat] at pos low
    split_ifs at pos low
    · omega
    · cases pos

theorem lowerIn_cases (runs : List CaseRun) (n : Nat) : lowerIn runs n = n ∨
    ∃ run ∈ runs, run.first ≤ n ∧ n ≤ run.last ∧ lowerIn runs n = (n + run.shift).toNat := by
  induction runs with
  | nil => exact .inl rfl
  | cons run runs ih =>
      rw [lowerIn]
      split_ifs with before inside
      · exact .inl rfl
      · exact .inr ⟨run, List.mem_cons_self, by omega, inside.1, rfl⟩
      · exact ih.imp id fun ⟨run, hr, rest⟩ => ⟨run, .tail _ hr, rest⟩

theorem variantIn_cases (variants : List (Nat × Nat)) (n : Nat) :
    variantIn variants n = n ∨ ∃ v ∈ variants, n = v.1 ∧ variantIn variants n = v.2 := by
  induction variants with
  | nil => exact .inl rfl
  | cons v variants ih =>
      rw [variantIn]
      split_ifs with same
      · exact .inr ⟨v, List.mem_cons_self, same, rfl⟩
      · exact ih.imp id fun ⟨v, hv, rest⟩ => ⟨v, .tail _ hv, rest⟩

/-- The numbers above ascii, those of the ascii letters that characters above ascii may stand for,
`i`, `k` and `s`, and that of no character. -/
def IsOuter (n : Nat) : Prop := 128 ≤ n ∨ n ∈ [0, 0x69, 0x6B, 0x73]

instance (n : Nat) : Decidable (IsOuter n) := inferInstanceAs (Decidable (_ ∨ _))

theorem isOuter_lowerIn {n : Nat} (h : 128 ≤ n) : IsOuter (lowerIn lowerRuns n) := by
  have runs : ∀ run ∈ lowerRuns, (128 : Int) ≤ run.first + run.shift ∨
      run.first = run.last ∧ (run.first + run.shift).toNat ∈ [0, 0x69, 0x6B, 0x73] := by
    decide +kernel
  rcases lowerIn_cases lowerRuns n with same | ⟨run, hr, first, last, lowered⟩
  · exact .inl (by omega)
  · rcases runs run hr with large | ⟨single, shared⟩
    · exact .inl (by omega)
    · obtain rfl : n = run.first := by omega
      exact .inr (lowered ▸ shared)

theorem IsOuter.variantIn {n : Nat} (h : IsOuter n) : IsOuter (variantIn letterVariants n) := by
  have variants : ∀ v ∈ letterVariants, 128 ≤ v.2 ∨ v.2 ∈ [0, 0x69, 0x6B, 0x73] := by decide
  rcases variantIn_cases letterVariants n with same | ⟨v, hv, -, changed⟩
  · rwa [same]
  · exact changed ▸ variants v hv

theorem IsOuter.ofNat {n : Nat} (h : IsOuter n) : IsOuter (Char.ofNat n).toNat := by
  rw [Char.toNat_ofNat]
  split_ifs
  · exact h
  · exact .inr List.mem_cons_self

theorem isOuter_letterClass {c : Char} (h : 128 ≤ c.toNat) : IsOuter (letterClass c).toNat := by
  rw [letterClass, if_neg (Nat.not_lt.2 h), lowerChar, if_neg (Nat.not_lt.2 h)]
  exact (isOuter_lowerIn h).ofNat.variantIn.ofNat

theorem lower_of_ascii {t : Text} (h : ∀ c ∈ t, c.toNat < 128 ∧ c.toLower = c) : lower t = t := by
  have ascii : t.all (·.toNat < 128) := by simpa using fun c hc => (h c hc).1
  rw [lower, if_pos ascii, List.map_congr_left (g := id) fun c hc => (h c hc).2, List.map_id]

theorem mem_of_mem_lower {t : Text} {d : Char} (h : d ∈ lower t) (pos : 0 < d.toNat)
    (low : d.toNat < 65) : d ∈ t := by
  have char {c : Char} (h : lowerChar c = d) : c = d := eq_of_lowerChar h pos low
  have large : ∀ e ∈ ['ς', 'σ', 'i', '\u0307'], ¬ e.toNat < 65 :=
    List.forall_iff_forall_mem.1 (by decide)
  have main (t : Text) (before : Bool) (h : d ∈ lowerFrom before t) : d ∈ t := by
    induction t generalizing before with
    | nil => cases h
    | cons c t ih =>
        rw [lowerFrom, List.mem_append] at h
        rcases h with spelled | later
        · split_ifs at spelled
          · exact absurd low (large d (List.mem_append_left ['σ', 'i', '\u0307'] spelled))
          · exact absurd low (large d (.tail _ (List.mem_append_left ['i', '\u0307'] spelled)))
          · exact absurd low (large d (.tail _ (.tail _ spelled)))
          · rw [char (List.mem_singleton.1 spelled).symm]
            exact List.mem_cons_self
        · exact List.mem_cons_of_mem c (ih _ later)
  rw [lower] at h
  split_ifs at h with ascii
  · obtain ⟨c, hc, same⟩ := List.mem_map.1 h
    have small : c.toNat < 128 := by simpa using List.all_eq_true.1 ascii c hc
    rwa [← char (c := c) (by rw [lowerChar, if_pos small, same])]
  · exact main t false h

end DesignTokens.Text
