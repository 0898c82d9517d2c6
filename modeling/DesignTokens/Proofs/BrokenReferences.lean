import DesignTokens.Proofs.ReferencedWeights

/-!
A reference is broken if another one starts before its name ends. A weight that is found in a
reference breaks it, and what comes after the weights does not repair it: sizes start at blanks,
line heights end at separators, and families have no bracket.
-/
namespace DesignTokens

open Text TokenName

/-- Another reference stands in the place of what ends a name. -/
def Broken (t : Text) : Prop :=
  ∃ part name, (∀ c ∈ part, isPart c) ∧ (∀ c ∈ name, isPart c) ∧
    opening ++ (part ++ reference name) <:+: t

variable {names : List Text} {t : Text}

namespace Broken

theorem mono {s : Text} (h : Broken s) (hs : s <:+: t) : Broken t := by
  obtain ⟨part, name, hpart, hname, inside⟩ := h
  exact ⟨part, name, hpart, hname, inside.trans hs⟩

theorem has_opening (h : Broken t) : opening <:+: t := by
  obtain ⟨part, name, -, -, inside⟩ := h
  exact (List.prefix_append _ _).isInfix.trans inside

theorem not_intact (hn : ∀ name ∈ names, TokenName.Valid name) (h : Broken t) :
    ¬ Intact names t := by
  obtain ⟨part, name, hpart, -, front, back, rfl⟩ := h
  intro whole
  obtain ⟨other, hother, hp⟩ := intact_iff.1 whole front (part ++ reference name ++ back) (by simp)
  have bracket : '(' ∉ other ++ [')'] := by simpa using notMem_name hn hother (c := '(') rfl
  have regroup : part ++ reference name ++ back =
      (part ++ ['v', 'a', 'r']) ++ '(' :: (name ++ ')' :: back) := by
    rw [List.append_assoc, reference_append]
    simp
  rw [regroup, prefix_append_cons_iff bracket] at hp
  have close : ')' ∈ part ++ ['v', 'a', 'r'] := hp.subset (by simp)
  have letters : ')' ∉ ['v', 'a', 'r'] := by decide
  rcases List.mem_append.1 close with inside | inside
  · exact absurd (hpart _ inside) (by decide)
  · exact letters inside

/-- The characters that a broken reference is read from are part of references. -/
theorem split {a b : Text} {c : Char} (hc : separates c) (h : Broken (a ++ c :: b)) :
    Broken a ∨ Broken b := by
  obtain ⟨part, name, hpart, hname, inside⟩ := h
  have plain : c ∉ opening ++ (part ++ reference name) := by
    have outside {s : Text} (hs : ∀ d ∈ s, isPart d) : c ∉ s := by
      intro hmem
      have := hs c hmem
      simp [separates, this] at hc
    have signs : c ≠ '(' ∧ c ≠ ')' := by
      simp only [separates, Bool.and_eq_true, bne_iff_ne] at hc
      exact ⟨hc.1.2, hc.2⟩
    have letters := notMem_opening hc
    have text : reference name = opening ++ (name ++ [')']) := by
      rw [← List.append_nil (reference name), reference_append]
      rfl
    simp [text, letters, outside hpart, outside hname, signs]
  exact ((infix_append_cons_iff plain).1 inside).imp (fun h => ⟨part, name, hpart, hname, h⟩)
    fun h => ⟨part, name, hpart, hname, h⟩

theorem of_separators_append {s b : Text} (hs : ∀ c ∈ s, separates c) (h : Broken (s ++ b)) :
    Broken b := by
  induction s with
  | nil => exact h
  | cons c s ih =>
      rcases split (a := []) (hs c (by simp)) h with none | later
      · exact absurd none.has_opening (by decide)
      · exact ih (fun c hc => hs c (by simp [hc])) later

theorem of_append_separators {a s : Text} (hs : ∀ c ∈ s, separates c) (h : Broken (a ++ s)) :
    Broken a := by
  induction s generalizing a with
  | nil => simpa using h
  | cons c s ih =>
      have later : ∀ c ∈ s, separates c := fun c hc => hs c (by simp [hc])
      rcases split (hs c (by simp)) h with front | rest
      · exact front
      · exact absurd (of_separators_append (b := []) later (by simpa using rest)).has_opening
          (by decide)

theorem drop {n : Nat} (h : Broken t) (closed : ClosedFor n t) : Broken (t.drop n) := by
  obtain ⟨part, name, hpart, hname, front, back, rfl⟩ := h
  have short : n ≤ front.length := by
    by_contra long
    refine closed front.length (by omega) ?_
    simp
  refine ⟨part, name, hpart, hname, front.drop n, back, ?_⟩
  simp [List.drop_append_of_le_length, short]

end Broken

namespace FontShorthand

/-- A weight that cannot be mistaken for the start of a reference. -/
structure OrdinaryWeight (word : Text) : Prop extends Unmistakable word where
  unbracketed : ¬ isPrefixNoCase ['('] word

variable {word : Text}

/-- Between the letters of an opening there is no boundary, and no weight starts with its bracket.
-/
theorem OrdinaryWeight.not_startsWithWord (hw : OrdinaryWeight word) {a p q b : Text} (hp : p ≠ [])
    (hq : q ≠ []) (ho : opening = p ++ q) : ¬ startsWithWord word (a ++ p).getLast? (q ++ b) := by
  intro starts
  simp only [startsWithWord, Bool.and_eq_true] at starts
  obtain ⟨⟨start, boundary⟩, -⟩ := starts
  rcases p with _ | ⟨c, _ | ⟨d, _ | ⟨e, _ | ⟨f, p⟩⟩⟩⟩
  · exact hp rfl
  · obtain ⟨rfl, rfl⟩ : 'v' = c ∧ ['a', 'r', '('] = q := by simpa [opening] using ho
    revert boundary
    simp [atBoundary, nextIs]
    decide
  · obtain ⟨rfl, rfl, rfl⟩ : 'v' = c ∧ 'a' = d ∧ ['r', '('] = q := by simpa [opening] using ho
    revert boundary
    simp [atBoundary, nextIs]
    decide
  · obtain ⟨-, -, -, rfl⟩ : 'v' = c ∧ 'a' = d ∧ 'r' = e ∧ ['('] = q := by
      simpa [opening] using ho
    have bracket : isPrefixNoCase ['('] (['('] ++ b) :=
      isPrefixNoCase_of_start (List.prefix_append _ b)
    refine hw.unbracketed (isPrefixNoCase_of_length_le bracket start ?_)
    exact List.length_pos_of_ne_nil hw.ne_nil
  · simp [opening] at ho
    exact hq ho.2.2.2.2.2

theorem broken_of_part {p name front rest : Text} (hp : ∀ c ∈ p, isPart c)
    (hname : ∀ c ∈ name, isPart c) (h : opening ++ p <:+ front) :
    Broken (front ++ (reference name ++ rest)) := by
  obtain ⟨a, rfl⟩ := h
  exact ⟨p, name, hp, hname, a, rest, by simp⟩

theorem broken_of_lands (hn : ∀ name ∈ names, TokenName.Valid name) (hw : OrdinaryWeight word)
    {name : Text} (hname : ∀ c ∈ name, isPart c) (h : Lands names word t) :
    Broken (replaceWord word (Template.plain (reference name)) none t) := by
  obtain ⟨front, rest, rfl, first, other, hother, p, q, hp, hq, text, ⟨a, rfl⟩, ⟨b, rfl⟩⟩ := h
  rcases cut_reference hq text with ⟨part, s, rfl, rfl, rfl⟩ | ⟨bs, hne, ho, rfl⟩
  · have part_parts : ∀ c ∈ part, isPart c := fun c hc => (hn _ hother).parts c (by simp [hc])
    rw [replaceWord_of_firstAt first]
    exact broken_of_part part_parts hname (List.suffix_append _ _)
  · have starts := first.starts
    rw [List.append_assoc, List.append_assoc] at starts
    exact absurd starts (hw.not_startsWithWord hp hne ho)

/-- A word that is found after the start of a broken reference leaves a broken one. -/
theorem broken_of_found_inside {a b part other name as rest new : Text}
    (hpart : ∀ c ∈ part, isPart c) (hother : ∀ c ∈ other, isPart c) (hname : ∀ c ∈ name, isPart c)
    (h : part ++ (reference other ++ b) = as ++ rest) :
    Broken (a ++ opening ++ as ++ (reference name ++ new)) := by
  have found {p q : Text} (hp : ∀ c ∈ p, isPart c) (hq : q ++ (opening ++ p) = a ++ opening ++ as) :
      Broken (a ++ opening ++ as ++ (reference name ++ new)) :=
    broken_of_part hp hname ⟨q, hq⟩
  rcases List.append_eq_append_iff.1 h with ⟨cs, rfl, second⟩ | ⟨cs, rfl, -⟩
  · by_cases whole : reference other <+: cs
    · obtain ⟨ds, rfl⟩ := whole
      have before : Broken (a ++ opening ++ (part ++ (reference other ++ ds))) :=
        ⟨part, other, hpart, hother, a, ds, by simp⟩
      exact before.mono (List.prefix_append _ _).isInfix
    · have long : cs <+: reference other := by
        rcases List.prefix_or_prefix_of_prefix ⟨b, second⟩ (List.prefix_append cs rest) with h | h
        · exact absurd h whole
        · exact h
      obtain ⟨ds, text⟩ := long
      have hds : ds ≠ [] := by
        rintro rfl
        exact whole (by rw [← text, List.append_nil])
      rcases cut_reference hds text.symm with ⟨as, s, rfl, rfl, -⟩ | ⟨bs, hbs, ho, -⟩
      · exact found (p := as) (q := a ++ opening ++ part) (fun c hc => hother c (by simp [hc]))
          (by simp)
      · have letters : ∀ c ∈ opening.dropLast, isPart c := List.all_eq_true.1 (by decide)
        rw [ho, List.dropLast_append_of_ne_nil hbs] at letters
        refine found (p := part ++ cs) (q := a) (fun c hc => ?_) (by simp)
        rcases List.mem_append.1 hc with hc | hc
        · exact hpart c hc
        · exact letters c (by simp [hc])
  · exact found (p := as) (q := a) (fun c hc => hpart c (by simp [hc])) (by simp)

/-- A weight that comes later is found before the break, and is over where that starts, or after
the start of it. -/
theorem broken_replaceWord (hw : OrdinaryWeight word) {name : Text}
    (hname : ∀ c ∈ name, isPart c) (h : Broken t) :
    Broken (replaceWord word (Template.plain (reference name)) none t) := by
  rcases exists_of_replaceWord word (reference name) t with same | ⟨front, rest, rfl, first⟩
  · rw [same]
    exact h
  rw [replaceWord_of_firstAt first]
  obtain ⟨part, other, hpart, hother, a, b, text⟩ := h
  have regroup : (a ++ opening) ++ (part ++ (reference other ++ b)) = front ++ rest := by
    rw [← text]
    simp
  have closed := closedFor_of_startsWithWord hw.unopened first.starts
  have before {s : Text} (hrest : rest = s ++ opening ++ (part ++ (reference other ++ b))) :
      Broken (front ++ (reference name ++ rest.drop word.length)) := by
    have broken : Broken rest := ⟨part, other, hpart, hother, s, b, by simp [hrest]⟩
    exact (broken.drop closed).mono
      ((List.suffix_append (reference name) _).trans (List.suffix_append front _)).isInfix
  rcases List.append_eq_append_iff.1 regroup with ⟨as, rfl, inner⟩ | ⟨bs, ha, hrest⟩
  · exact broken_of_found_inside hpart hother hname inner
  · rcases List.append_eq_append_iff.1 ha with ⟨cs, rfl, ho⟩ | ⟨cs, rfl, rfl⟩
    · by_cases hbs : bs = []
      · refine broken_of_part (p := []) (by simp) hname ⟨a, ?_⟩
        simp [ho, hbs]
      · by_cases hcs : cs = []
        · exact before (s := []) (by simp [hrest, ho, hcs])
        · rw [hrest] at first
          exact absurd first.starts (hw.not_startsWithWord hcs hbs ho)
    · exact before hrest

section Sizes

variable {literal name : Text} {lineHeights : TokenMap}

theorem broken_sizeText (hl : ∀ e ∈ lineHeights.entries, ¬ opening <:+: e.1) (h : Broken t) :
    Broken (sizeText lineHeights name t) := by
  cases hpart : lineHeight? t with
  | none =>
      rw [sizeText, hpart]
      exact h.mono (List.suffix_append _ _).isInfix
  | some part =>
      obtain ⟨height, tail⟩ := part
      obtain ⟨blanks, blanks', cuts⟩ := exists_of_lineHeight? hpart
      obtain ⟨s, text, separates⟩ := cuts.exists_separators
      have later := Broken.of_separators_append separates (text ▸ h)
      have parts : Broken height ∨ Broken tail := by
        rcases eq_nil_or_separates cuts.ends with rfl | ⟨c, rest, rfl, hc⟩
        · exact .inl (by simpa using later)
        · exact (later.split hc).imp_right fun h => h.mono (List.suffix_cons c rest).isInfix
      rw [sizeText, hpart]
      rcases parts with inside | after
      · have unnamed : lineHeights.reference? height = none := by
          rw [TokenMap.reference?, Option.map_eq_none_iff]
          cases hname : (lineHeights.get? height).filter (!·.isEmpty) with
          | none => rfl
          | some other =>
              have entry := OrderedMap.mem_of_get?_eq_some (Option.filter_eq_some_iff.1 hname).1
              exact absurd inside.has_opening (hl _ entry)
        simp only [unnamed, Option.getD_none]
        exact inside.mono ⟨reference name ++ " / ".toList, tail, rfl⟩
      · exact after.mono (List.suffix_append _ _).isInfix

theorem broken_replaceSize (hl : ∀ e ∈ lineHeights.entries, ¬ opening <:+: e.1)
    (hu : Unmistakable literal) (h : Broken t) :
    Broken (replaceSize lineHeights literal name t) := by
  have after {u tail : Text} (hu' : Broken u) (ha : afterLiteral? literal u = some tail) :
      Broken (sizeText lineHeights name tail) := by
    obtain ⟨rfl, closed⟩ := eq_of_afterLiteral? hu ha
    exact broken_sizeText hl (hu'.drop closed)
  rw [replaceSize]
  split
  · rename_i tail ha
    exact after h ha
  · obtain same | ⟨a, c, rest, tail, blank, rfl, ha, new⟩ :=
      exists_of_replaceInnerSize lineHeights literal name t
    · rw [same]
      exact h
    · rw [new]
      rcases h.split (separates_of_isBlank blank) with front | back
      · exact front.mono (List.prefix_append _ _).isInfix
      · refine (after back ha).mono ?_
        exact ((List.suffix_cons c _).trans (List.suffix_append a _)).isInfix

end Sizes

/-- A broken reference has brackets, so it is over before a family without one. -/
theorem broken_replaceFamily {families : TokenMap} (hf : ∀ e ∈ families.entries, ')' ∉ e.1)
    (family : Text) (h : Broken t) : Broken (replaceFamily families family t) := by
  obtain same | ⟨front, rest, name, entry, rfl, blank, text⟩ :=
    exists_of_replaceFamily families family t
  · rw [same]
    exact h
  have close := notMem_of_notMem_fontFamily (hf _ entry)
  obtain ⟨part, other, hpart, hother, inside⟩ :=
    Broken.of_append_separators (fun c hc => separates_of_isBlank (blank c hc)) h
  have ends : opening ++ (part ++ reference other) =
      (opening ++ (part ++ ("var(".toList ++ other))) ++ [')'] := by simp [reference]
  rw [ends] at inside
  have before := infix_of_infix_append close inside
  rw [← ends] at before
  rw [text, List.append_assoc]
  exact ⟨part, other, hpart, hother, before.trans (List.prefix_append _ _).isInfix⟩

end FontShorthand

end DesignTokens
