import DesignTokens.Length.Literal
import DesignTokens.Proofs.CharClasses
import DesignTokens.Proofs.LetterCases
import DesignTokens.Proofs.TextCuts

/-!
Numerals and lengths as they are written. What is scanned is a numeral that is written in front of
the rest, or a length with its unit in some letter case; and what is so written is scanned again,
whatever follows a length.
-/
namespace DesignTokens

open Text

/-- A numeral that has been written: digits of any script, and after a point at least one. -/
structure Numeral.IsWritten (n : Numeral) : Prop where
  whole : ∀ c ∈ n.whole, Text.isDigit c
  fraction : ∀ f, n.fraction = some f → f ≠ [] ∧ ∀ c ∈ f, Text.isDigit c
  written : n.fraction = none → n.whole ≠ []

namespace Numeral

theorem splitDigits_append {digits rest : Text} (hd : ∀ c ∈ digits, Text.isDigit c)
    (hrest : nextIs Text.isDigit rest = false) :
    Decimal.splitDigits (digits ++ rest) = (digits, rest) := by
  rw [Decimal.splitDigits, takeWhile_append_of_nextIs hd hrest,
    dropWhile_append_of_nextIs hd hrest]

theorem splitDigits_of_digits {digits : Text} (hd : ∀ c ∈ digits, Text.isDigit c) :
    Decimal.splitDigits digits = (digits, []) := by
  have cut := splitDigits_append hd (rfl : nextIs Text.isDigit [] = false)
  rwa [List.append_nil] at cut

theorem of_splitDigits {t digits rest : Text} (h : Decimal.splitDigits t = (digits, rest)) :
    (∀ c ∈ digits, Text.isDigit c) ∧ t = digits ++ rest := by
  cases h
  exact ⟨fun _ hc => List.mem_takeWhile_imp hc, List.takeWhile_append_dropWhile.symm⟩

/-- A numeral without its sign. -/
def size (n : Numeral) : Text := n.whole ++ n.fraction.elim [] ('.' :: ·)

theorem text_eq (n : Numeral) : n.text = (if n.negative then ['-'] else []) ++ n.size := by
  rw [text, size]
  cases n.fraction <;> simp

theorem scanSize?_size_append {n : Numeral} (h : n.IsWritten) {rest : Text}
    (hd : nextIs Text.isDigit rest = false) (hp : nextIs (· == '.') rest = false) :
    scanSize? n.negative (n.size ++ rest) = some (n, rest) := by
  obtain ⟨negative, whole, fraction⟩ := n
  obtain ⟨hw, hf, hne⟩ := h
  cases fraction with
  | none =>
      have written : whole.isEmpty = false := by simpa using hne rfl
      simp only [size, Option.elim_none, List.append_nil, scanSize?, splitDigits_append hw hd,
        written]
      split
      · cases hp
      · rfl
  | some digits =>
      obtain ⟨nonempty, hdigits⟩ := hf digits rfl
      have point : nextIs Text.isDigit ('.' :: (digits ++ rest)) = false := rfl
      rw [size, Option.elim_some, List.append_assoc, List.cons_append, scanSize?,
        splitDigits_append hw point]
      simp only [splitDigits_append hdigits hd]

/-- No numeral begins with a second sign. -/
theorem IsWritten.size_ne_minus {n : Numeral} (h : n.IsWritten) (rest : Text) :
    (n.size ++ rest).head? ≠ some '-' := by
  obtain ⟨negative, whole, fraction⟩ := n
  obtain ⟨hw, hf, hne⟩ := h
  cases whole with
  | nil =>
      cases fraction with
      | none => exact absurd rfl (hne rfl)
      | some digits => simp [size]
  | cons c whole =>
      have digit := hw c List.mem_cons_self
      rintro ⟨⟩
      cases digit

/-- A written numeral is scanned where neither a digit nor a point follows it. -/
theorem scan?_text_append {n : Numeral} (h : n.IsWritten) {rest : Text}
    (hd : nextIs Text.isDigit rest = false) (hp : nextIs (· == '.') rest = false) :
    scan? (n.text ++ rest) = some (n, rest) := by
  have scanned := scanSize?_size_append h hd hp
  rw [text_eq]
  cases sign : n.negative with
  | true =>
      rw [sign] at scanned
      exact scanned
  | false =>
      rw [sign] at scanned
      have unsigned : scan? (n.size ++ rest) = scanSize? false (n.size ++ rest) := by
        rw [scan?]
        intro tail minus
        exact h.size_ne_minus rest (congrArg List.head? minus)
      exact unsigned.trans scanned

theorem of_scanSize? {negative : Bool} {t rest : Text} {n : Numeral}
    (h : scanSize? negative t = some (n, rest)) :
    n.negative = negative ∧ n.IsWritten ∧ t = n.size ++ rest := by
  rcases hw : Decimal.splitDigits t with ⟨whole, tail⟩
  obtain ⟨digits, rfl⟩ := of_splitDigits hw
  have plain (h : (if whole.isEmpty then none else some (⟨negative, whole, none⟩, tail)) =
      some (n, rest)) : n.negative = negative ∧ n.IsWritten ∧ whole ++ tail = n.size ++ rest := by
    split at h
    · cases h
    · rename_i written
      cases h
      exact ⟨rfl, ⟨digits, nofun, fun _ => by simpa using written⟩, by simp [size]⟩
  simp only [scanSize?, hw] at h
  split at h
  · split at h
    · exact plain h
    · rename_i fraction rest' hne hf
      obtain ⟨places, rfl⟩ := of_splitDigits hf
      cases h
      refine ⟨rfl, ⟨digits, ?_, nofun⟩, by simp [size]⟩
      rintro f ⟨⟩
      exact ⟨hne, places⟩
  · exact plain h

theorem of_scan? {t rest : Text} {n : Numeral} (h : scan? t = some (n, rest)) :
    n.IsWritten ∧ t = n.text ++ rest := by
  unfold scan? at h
  split at h
  · obtain ⟨sign, written, rfl⟩ := of_scanSize? h
    exact ⟨written, by simp [text_eq, sign]⟩
  · obtain ⟨sign, written, rfl⟩ := of_scanSize? h
    exact ⟨written, by simp [text_eq, sign]⟩

theorem IsWritten.mem_size_cases {n : Numeral} (h : n.IsWritten) :
    ∀ c ∈ n.size, Text.isDigit c ∨ c = '.' := by
  intro c hc
  rw [size, List.mem_append] at hc
  rcases hc with whole | fraction
  · exact .inl (h.whole c whole)
  · cases hf : n.fraction with
    | none =>
        rw [hf] at fraction
        cases fraction
    | some digits =>
        rw [hf, Option.elim_some] at fraction
        rcases List.mem_cons.1 fraction with point | digit
        · exact .inr point
        · exact .inl ((h.fraction digits hf).2 c digit)

/-- The characters of a written numeral. -/
theorem IsWritten.mem_text_cases {n : Numeral} (h : n.IsWritten) :
    ∀ c ∈ n.text, Text.isDigit c ∨ c = '.' ∨ c = '-' := by
  intro c hc
  rw [text_eq, List.mem_append] at hc
  rcases hc with sign | size
  · split at sign
    · exact .inr (.inr (List.mem_singleton.1 sign))
    · cases sign
  · exact (h.mem_size_cases c size).imp id .inl

theorem IsWritten.joinsNext {n : Numeral} (h : n.IsWritten) :
    ∀ c ∈ n.text, Length.joinsNext c := by
  intro c hc
  rcases h.mem_text_cases c hc with digit | rfl | rfl
  · simp [Length.joinsNext, isWord_of_isDigit digit]
  · decide
  · decide

theorem IsWritten.size_ne_nil {n : Numeral} (h : n.IsWritten) : n.size ≠ [] := by
  rw [size]
  cases hf : n.fraction with
  | none => simpa using h.written hf
  | some digits => simp

/-- A written numeral ends with a digit. -/
theorem IsWritten.getLast?_text {n : Numeral} (h : n.IsWritten) :
    n.text.getLast?.any Text.isDigit := by
  rw [text_eq, List.getLast?_append_of_ne_nil _ h.size_ne_nil, size]
  cases hf : n.fraction with
  | none =>
      have hne := h.written hf
      rw [Option.elim_none, List.append_nil, List.getLast?_eq_some_getLast hne]
      exact h.whole _ (List.getLast_mem hne)
  | some digits =>
      obtain ⟨hne, all⟩ := h.fraction digits hf
      rw [Option.elim_some, List.getLast?_append_of_ne_nil _ (by simp),
        List.getLast?_cons, List.getLast?_eq_some_getLast hne]
      exact all _ (List.getLast_mem hne)

theorem IsWritten.text_ne_nil {n : Numeral} (h : n.IsWritten) : n.text ≠ [] := by
  rw [text_eq]
  simp [h.size_ne_nil]

end Numeral

/-! ### Units -/

/-- A name in some letter case. -/
structure Text.Spells (name spelled : Text) : Prop where
  length_eq : spelled.length = name.length
  same : isPrefixNoCase name spelled

namespace Text.Spells

variable {name spelled : Text}

theorem take {t : Text} (h : isPrefixNoCase name t) : Spells name (t.take name.length) := by
  induction name generalizing t with
  | nil => exact ⟨rfl, rfl⟩
  | cons a name ih =>
      cases t with
      | nil => cases h
      | cons c t =>
          rw [isPrefixNoCase, Bool.and_eq_true] at h
          obtain ⟨length, same⟩ := ih h.2
          refine ⟨congrArg Nat.succ length, ?_⟩
          rw [List.length_cons, List.take_succ_cons, isPrefixNoCase, h.1, same]
          rfl

theorem isPrefixNoCase_append (h : Spells name spelled) (rest : Text) :
    isPrefixNoCase name (spelled ++ rest) := by
  obtain ⟨length, same⟩ := h
  induction name generalizing spelled with
  | nil => rfl
  | cons a name ih =>
      cases spelled with
      | nil => cases same
      | cons c spelled =>
          rw [isPrefixNoCase, Bool.and_eq_true] at same
          rw [List.cons_append, isPrefixNoCase, same.1, ih (Nat.succ.inj length) same.2]
          rfl

theorem exists_letter (h : Spells name spelled) : ∀ c ∈ spelled, ∃ a ∈ name, sameLetter a c := by
  obtain ⟨length, same⟩ := h
  induction name generalizing spelled with
  | nil =>
      obtain rfl := List.length_eq_zero_iff.1 length
      exact List.forall_mem_nil _
  | cons a name ih =>
      cases spelled with
      | nil => cases same
      | cons c spelled =>
          rw [isPrefixNoCase, Bool.and_eq_true] at same
          refine List.forall_mem_cons.2 ⟨⟨a, List.mem_cons_self, same.1⟩, fun d hd => ?_⟩
          obtain ⟨b, hb, letter⟩ := ih (Nat.succ.inj length) same.2 d hd
          exact ⟨b, .tail _ hb, letter⟩

end Text.Spells

/-- A new length could start after a blank. -/
theorem Length.not_isBlank_of_joinsNext {c : Char} (h : joinsNext c) : isBlank c = false := by
  by_contra blank
  have table := forall_of_inRanges (p := fun c => !joinsNext c) (by decide +kernel)
    (Bool.not_eq_false _ ▸ blank)
  rw [h] at table
  cases table

namespace LengthUnit

/-- The characters of the names of units. -/
def letters : Text := ['p', 'x', 'r', 'e', 'm', 'v', 'h', 'w', 'c', '%']

/-- A character of a unit in some letter case, and its classes. -/
structure LetterOf (a c : Char) : Prop where
  same : sameLetter a c
  word : isWord c ∨ a = '%'
  not_digit : Text.isDigit c = false
  solid : isBlank c = false
  ne_point : c ≠ '.'

theorem letterOf {a c : Char} (ha : a ∈ letters) (h : sameLetter a c) : LetterOf a c := by
  have inner : letters.all fun a => decide (¬ IsOuter (letterClass a).toNat) := by decide
  have ascii : c.toNat < 128 := by
    by_contra above
    have outer := isOuter_letterClass (Nat.not_lt.1 above)
    rw [← sameLetter_iff.1 h] at outer
    exact of_decide_eq_true (List.all_eq_true.1 inner a ha) outer
  let kept (c : Char) := !sameLetter a c ||
    (isWord c || a == '%') && !Text.isDigit c && !isBlank c && c != '.'
  have table : letters.all fun a => (List.range 128).all fun n =>
      !sameLetter a (Char.ofNat n) || (isWord (Char.ofNat n) || a == '%') &&
        !Text.isDigit (Char.ofNat n) && !isBlank (Char.ofNat n) && Char.ofNat n != '.' := by
    decide +kernel
  have entry : kept c := forall_of_lt_128 (List.all_eq_true.1 table a ha) ascii
  simp only [kept, h, Bool.not_true, Bool.false_or, Bool.and_eq_true, Bool.or_eq_true, beq_iff_eq,
    Bool.not_eq_true', bne_iff_ne, and_assoc] at entry
  obtain ⟨word, digit, solid, point⟩ := entry
  exact ⟨h, word, digit, solid, point⟩

theorem letters_of_spells {u : LengthUnit} (hu : u ∈ known) {spelled : Text}
    (h : Spells u.name spelled) : ∀ c ∈ spelled, ∃ a ∈ u.name, LetterOf a c := by
  have names : known.all fun u => u.name.all letters.contains := by decide
  intro c hc
  obtain ⟨a, ha, letter⟩ := h.exists_letter c hc
  have listed := List.all_eq_true.1 (List.all_eq_true.1 names u hu) a ha
  exact ⟨a, ha, letterOf (List.contains_iff_mem.1 listed) letter⟩

/-- No unit starts like another one. -/
theorem eq_of_isPrefixNoCase {u u' : LengthUnit} (hu : u ∈ known) (hu' : u' ∈ known) {t : Text}
    (h : isPrefixNoCase u.name t) (h' : isPrefixNoCase u'.name t) : u = u' := by
  have apart : ∀ u ∈ known, ∀ u' ∈ known, isPrefixNoCase u.name u'.name → u = u' := by
    decide +kernel
  rcases Nat.le_total u.name.length u'.name.length with shorter | longer
  · exact apart u hu u' hu' (isPrefixNoCase_of_length_le h h' shorter)
  · exact (apart u' hu' u hu (isPrefixNoCase_of_length_le h' h longer)).symm

end LengthUnit

namespace Length

/-- A length as it is written, with its unit in some letter case. -/
inductive Writes (n : Numeral) (u : LengthUnit) : Text → Prop
  | mk (spelled : Text) (written : n.IsWritten) (known : u ∈ LengthUnit.known)
      (spells : Spells u.name spelled) : Writes n u (n.text ++ spelled)

variable {units : List LengthUnit} {t rest : Text} {n : Numeral} {u : LengthUnit}

theorem exists_of_scan? (known : ∀ u ∈ units, u ∈ LengthUnit.known)
    (h : scan? units .anyCase t = some (n, u, rest)) :
    u ∈ units ∧ ∃ w, Writes n u w ∧ t = w ++ rest := by
  obtain ⟨⟨m, tail⟩, hm, h⟩ := Option.bind_eq_some_iff.1 h
  obtain ⟨unit, hu, h⟩ := Option.bind_eq_some_iff.1 h
  cases h
  obtain ⟨written, rfl⟩ := Numeral.of_scan? hm
  have found : isPrefixNoCase u.name tail := by
    simpa [Spelling.matches] using List.find?_some hu
  have listed := List.mem_of_find?_eq_some hu
  refine ⟨listed, _, .mk _ written (known u listed) (.take found), ?_⟩
  rw [List.append_assoc, List.take_append_drop]

namespace Writes

/-- A written length is scanned whatever follows it. -/
theorem scan?_append (h : Writes n u t) (known : ∀ u ∈ units, u ∈ LengthUnit.known)
    (hu : u ∈ units) (rest : Text) : scan? units .anyCase (t ++ rest) = some (n, u, rest) := by
  obtain ⟨spelled, hn, hk, hs⟩ := h
  have nonempty : ∀ u ∈ LengthUnit.known, u.name ≠ [] := by decide
  have stop : nextIs Text.isDigit (spelled ++ rest) = false ∧
      nextIs (· == '.') (spelled ++ rest) = false := by
    cases spelled with
    | nil => exact absurd (List.length_eq_zero_iff.1 hs.length_eq.symm) (nonempty u hk)
    | cons c spelled =>
        obtain ⟨a, -, letter⟩ := LengthUnit.letters_of_spells hk hs c List.mem_cons_self
        exact ⟨letter.not_digit, by simpa [nextIs] using letter.ne_point⟩
  have found : units.find? (fun u => isPrefixNoCase u.name (spelled ++ rest)) = some u := by
    cases hf : units.find? (fun u => isPrefixNoCase u.name (spelled ++ rest)) with
    | none => exact absurd (hs.isPrefixNoCase_append rest) (List.find?_eq_none.1 hf u hu)
    | some u' =>
        have hu' := List.mem_of_find?_eq_some hf
        have start : isPrefixNoCase u'.name (spelled ++ rest) := by simpa using List.find?_some hf
        exact congrArg some (LengthUnit.eq_of_isPrefixNoCase (known u' hu') hk start
          (hs.isPrefixNoCase_append rest))
  rw [List.append_assoc, scan?, Numeral.scan?_text_append hn stop.1 stop.2]
  simp only [Spelling.matches, Option.bind_eq_bind, Option.bind_some, found, ← hs.length_eq,
    List.drop_left]
  rfl

theorem scan?_known (h : Writes n u t) (rest : Text) :
    scan? LengthUnit.known .anyCase (t ++ rest) = some (n, u, rest) := by
  have listed : u ∈ LengthUnit.known := by
    cases h
    assumption
  exact h.scan?_append (fun _ hu => hu) listed rest

theorem ne_nil (h : Writes n u t) : t ≠ [] := by
  cases h with
  | mk spelled written => simp [written.text_ne_nil]

/-- No blank is in a written length, and nothing but a `%` after which another could start. -/
theorem classes (h : Writes n u t) :
    ∀ c ∈ t, isBlank c = false ∧ (u ≠ .percent → joinsNext c) := by
  obtain ⟨spelled, hn, hk, hs⟩ := h
  intro c hc
  rcases List.mem_append.1 hc with numeral | unit
  · have joins : joinsNext c := by
      rcases hn.mem_text_cases c numeral with digit | rfl | rfl
      · simp [joinsNext, isWord_of_isDigit digit]
      · rfl
      · rfl
    exact ⟨not_isBlank_of_joinsNext joins, fun _ => joins⟩
  · obtain ⟨a, ha, letter⟩ := LengthUnit.letters_of_spells hk hs c unit
    refine ⟨letter.solid, fun other => ?_⟩
    have plain : ∀ u ∈ LengthUnit.known, u ≠ .percent → '%' ∉ u.name := by decide
    rcases letter.word with word | rfl
    · simp [joinsNext, word]
    · exact absurd ha (plain u hk other)

end Writes

end Length

end DesignTokens
