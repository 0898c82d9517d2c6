import DesignTokens.Proofs.Occurrences
import DesignTokens.Token.Tables
import DesignTokens.Sorting.Lemmas

/-!
Where candidates come from: every literal in a table was found in a declaration by the rule of its
category, and every literal that is found comes into its table. What a declaration adds is one
occurrence for each literal that is found in it, and the tables are a fold over all occurrences.
Main statements: `mem_colors_collect_iff`, `mem_table_collect_iff`.
-/
namespace DesignTokens

namespace Candidates

/-- The literals that are found in a declaration, by category. -/
inductive Finds (d : Declaration) : Category → Text → Prop
  | spacing {literal : Text} (hp : Property.isSpacing d.property)
      (h : literal ∈ Length.literals d.value) : Finds d .spacing literal
  | borderWidth {literal : Text} (hp : Property.isBorder d.property)
      (h : Length.firstLiteral? d.value = some literal) : Finds d .borderWidths literal
  | radius (hp : d.property = "border-radius".toList) : Finds d .radii (Value.radius d.value)
  | shadow (hp : d.property = "box-shadow".toList) : Finds d .shadows (Value.shadow d.value)
  | duration {literal : Text} (hp : Property.isMotion d.property)
      (h : literal ∈ Duration.literals d.value) : Finds d .durations literal
  | easing {literal : Text} (hp : Property.isMotion d.property)
      (h : literal ∈ Easing.literals d.value) : Finds d .easings literal
  | family (hp : d.property = "font-family".toList)
      (hk : Value.isWideKeyword (Value.fontFamily d.value) = false) :
      Finds d .fontFamilies (Value.fontFamily d.value)
  | shorthandFamily {family : Text} (hp : d.property = "font".toList)
      (h : FontShorthand.family? d.value = some family)
      (hk : Value.isWideKeyword (Value.fontFamily family) = false) :
      Finds d .fontFamilies (Value.fontFamily family)
  | shorthandSize {literal : Text} (hp : d.property = "font".toList)
      (h : (FontShorthand.parse d.value).size = some literal) : Finds d .fontSizes literal
  | shorthandLineHeight {literal : Text} (hp : d.property = "font".toList)
      (h : (FontShorthand.parse d.value).lineHeight = some literal) : Finds d .lineHeights literal
  | shorthandWeight {literal : Text} (hp : d.property = "font".toList)
      (h : (FontShorthand.parse d.value).weight = some literal) : Finds d .fontWeights literal
  | whole {c : Category} (hp : (d.property, c) ∈ wholeValues) : Finds d c d.value

theorem Finds.not_isWideKeyword {d : Declaration} {literal : Text}
    (h : Finds d .fontFamilies literal) : Value.isWideKeyword literal = false := by
  cases h with
  | family _ hk | shorthandFamily _ _ hk => exact hk
  | whole hp => simp [wholeValues] at hp

theorem Finds.of_lookup {d : Declaration} {c : Category}
    (h : wholeValues.lookup d.property = some c) : Finds d c d.value :=
  .whole (mem_of_lookup_eq_some h)

end Candidates

namespace Declaration

open Candidates Occurrence

variable {d : Declaration} {o : Occurrence}

/-- The occurrence of a literal of a declaration, which goes by its property for spacings only. -/
def occurrence (d : Declaration) (c : Category) (literal : Text) : Occurrence :=
  inTable c (if c = .spacing then some d.property else none) literal

theorem exists_finds_of_mem_map {c : Category} (hc : c ≠ .spacing) {literals : List Text}
    (h : ∀ literal ∈ literals, Finds d c literal) (ho : o ∈ literals.map (inTable c none)) :
    ∃ c literal, Finds d c literal ∧ o = d.occurrence c literal := by
  obtain ⟨literal, listed, rfl⟩ := List.mem_map.1 ho
  exact ⟨c, literal, h literal listed, by rw [occurrence, if_neg hc]⟩

theorem exists_finds_of_typography (ho : o ∈ d.typographyOccurrences) :
    ∃ c literal, Finds d c literal ∧ o = d.occurrence c literal := by
  have family {value : Text} (ho : o ∈ familyOccurrences value)
      (found : Value.isWideKeyword (Value.fontFamily value) = false →
        Finds d .fontFamilies (Value.fontFamily value)) :
      ∃ c literal, Finds d c literal ∧ o = d.occurrence c literal := by
    rw [familyOccurrences] at ho
    split at ho
    · cases ho
    · rename_i plain
      rw [List.mem_singleton] at ho
      exact ⟨_, _, found (Bool.eq_false_iff.2 plain), ho⟩
  rw [typographyOccurrences] at ho
  split at ho
  · rename_i hp
    simp only [shorthandOccurrences, List.mem_append, List.mem_flatMap] at ho
    rcases ho with ((ho | ho) | ho) | ⟨value, hv, ho⟩
    · exact exists_finds_of_mem_map (by decide)
        (fun _ h => Finds.shorthandSize hp (Option.mem_toList.1 h)) ho
    · exact exists_finds_of_mem_map (by decide)
        (fun _ h => Finds.shorthandLineHeight hp (Option.mem_toList.1 h)) ho
    · exact exists_finds_of_mem_map (by decide)
        (fun _ h => Finds.shorthandWeight hp (Option.mem_toList.1 h)) ho
    · exact family ho fun hk => .shorthandFamily hp (Option.mem_toList.1 hv) hk
  split at ho
  · rename_i hp
    exact family ho fun hk => .family hp hk
  · obtain ⟨c, hc, rfl⟩ := List.mem_map.1 ho
    rw [Option.mem_toList] at hc
    have others : ∀ e ∈ wholeValues, e.2 ≠ .spacing := by decide
    have other : c ≠ .spacing := others _ (mem_of_lookup_eq_some hc)
    exact ⟨c, d.value, .of_lookup hc, by rw [occurrence, if_neg other]⟩

theorem mem_typographyOccurrences {c : Category} {literal : Text} (found : Finds d c literal)
    (typographic : c.feature = .typography) : d.occurrence c literal ∈ d.typographyOccurrences := by
  have family {value : Text} (hk : Value.isWideKeyword (Value.fontFamily value) = false) :
      d.occurrence .fontFamilies (Value.fontFamily value) ∈ familyOccurrences value := by
    rw [familyOccurrences, if_neg (Bool.eq_false_iff.1 hk)]
    exact List.mem_singleton_self _
  rw [typographyOccurrences]
  cases found with
  | spacing | borderWidth | radius | shadow | duration | easing => cases typographic
  | shorthandSize hp h =>
      rw [if_pos hp]
      exact List.mem_append_left _ (List.mem_append_left _ (List.mem_append_left _
        (List.mem_map_of_mem (Option.mem_toList.2 h))))
  | shorthandLineHeight hp h =>
      rw [if_pos hp]
      exact List.mem_append_left _ (List.mem_append_left _ (List.mem_append_right _
        (List.mem_map_of_mem (Option.mem_toList.2 h))))
  | shorthandWeight hp h =>
      rw [if_pos hp]
      exact List.mem_append_left _ (List.mem_append_right _
        (List.mem_map_of_mem (Option.mem_toList.2 h)))
  | shorthandFamily hp h hk =>
      rw [if_pos hp]
      exact List.mem_append_right _ (List.mem_flatMap.2 ⟨_, Option.mem_toList.2 h, family hk⟩)
  | family hp hk =>
      rw [if_neg (by rw [hp]; decide), if_pos hp]
      exact family hk
  | whole hp =>
      have others : ∀ e ∈ wholeValues, e.1 ≠ "font".toList ∧ e.1 ≠ "font-family".toList ∧
          wholeValues.lookup e.1 = some e.2 ∧ e.2 ≠ .spacing := by decide
      obtain ⟨shorthand, family, listed, other⟩ := others _ hp
      rw [if_neg shorthand, if_neg family, listed, occurrence, if_neg other]
      exact List.mem_singleton_self _

theorem exists_finds_of_table (ho : o ∈ d.tableOccurrences) :
    ∃ c literal, Finds d c literal ∧ o = d.occurrence c literal := by
  simp only [tableOccurrences, List.mem_append] at ho
  rcases ho with ((((ho | ho) | ho) | ho) | ho) | ho
  · exact exists_finds_of_typography ho
  · rw [spacingOccurrences] at ho
    split at ho
    · rename_i hp
      obtain ⟨literal, hl, rfl⟩ := List.mem_map.1 ho
      exact ⟨_, _, .spacing hp hl, rfl⟩
    · cases ho
  · rw [borderOccurrences] at ho
    split at ho
    · rename_i hp
      exact exists_finds_of_mem_map (by decide)
        (fun _ h => Finds.borderWidth hp (Option.mem_toList.1 h)) ho
    · cases ho
  · rw [radiusOccurrences] at ho
    split at ho
    · rename_i hp
      exact ⟨_, _, .radius hp, List.mem_singleton.1 ho⟩
    · cases ho
  · rw [shadowOccurrences] at ho
    split at ho
    · rename_i hp
      exact ⟨_, _, .shadow hp, List.mem_singleton.1 ho⟩
    · cases ho
  · rw [motionOccurrences] at ho
    split at ho
    · rename_i hp
      rcases List.mem_append.1 ho with ho | ho
      · exact exists_finds_of_mem_map (by decide) (fun _ h => Finds.duration hp h) ho
      · exact exists_finds_of_mem_map (by decide) (fun _ h => Finds.easing hp h) ho
    · cases ho

theorem mem_tableOccurrences {c : Category} {literal : Text} (found : Finds d c literal) :
    d.occurrence c literal ∈ d.tableOccurrences := by
  simp only [tableOccurrences, List.mem_append]
  by_cases typographic : c.feature = .typography
  · exact .inl (.inl (.inl (.inl (.inl (mem_typographyOccurrences found typographic)))))
  cases found with
  | spacing hp h =>
      refine .inl (.inl (.inl (.inl (.inr ?_))))
      rw [spacingOccurrences, if_pos hp]
      exact List.mem_map_of_mem h
  | borderWidth hp h =>
      refine .inl (.inl (.inl (.inr ?_)))
      rw [borderOccurrences, if_pos hp, h]
      exact List.mem_singleton_self _
  | radius hp =>
      refine .inl (.inl (.inr ?_))
      rw [radiusOccurrences, if_pos hp]
      exact List.mem_singleton_self _
  | shadow hp =>
      refine .inl (.inr ?_)
      rw [shadowOccurrences, if_pos hp]
      exact List.mem_singleton_self _
  | duration hp h =>
      refine .inr ?_
      rw [motionOccurrences, if_pos hp]
      exact List.mem_append_left _ (List.mem_map_of_mem h)
  | easing hp h =>
      refine .inr ?_
      rw [motionOccurrences, if_pos hp]
      exact List.mem_append_right _ (List.mem_map_of_mem h)
  | family | shorthandFamily | shorthandSize | shorthandLineHeight | shorthandWeight =>
      exact absurd rfl typographic
  | whole hp =>
      have all : ∀ e ∈ wholeValues, e.2.feature = .typography := by decide
      exact absurd (all _ hp) typographic

/-- The occurrences in categories are those of the literals that are found. -/
theorem mem_tableOccurrences_iff :
    o ∈ d.tableOccurrences ↔ ∃ c literal, Finds d c literal ∧ o = d.occurrence c literal :=
  ⟨exists_finds_of_table, fun ⟨_, _, found, same⟩ => same ▸ mem_tableOccurrences found⟩

theorem exists_inTable_mem_iff {c : Category} {literal : Text} :
    (∃ o ∈ d.occurrences, ∃ property, o = inTable c property literal) ↔ Finds d c literal := by
  constructor
  · rintro ⟨_, ho, property, rfl⟩
    rcases List.mem_append.1 ho with ho | ho
    · obtain ⟨_, -, color⟩ := List.mem_map.1 ho
      cases color
    · obtain ⟨_, _, found, same⟩ := exists_finds_of_table ho
      cases same
      exact found
  · intro found
    exact ⟨_, List.mem_append_right _ (mem_tableOccurrences found), _, rfl⟩

theorem exists_color_mem_iff {literal : Text} :
    (∃ o ∈ d.occurrences, ∃ property selector, o = color literal property selector) ↔
      literal ∈ Color.literals d.value := by
  constructor
  · rintro ⟨_, ho, property, selector, rfl⟩
    rcases List.mem_append.1 ho with ho | ho
    · obtain ⟨_, listed, same⟩ := List.mem_map.1 ho
      cases same
      exact listed
    · obtain ⟨_, _, -, inTable⟩ := exists_finds_of_table ho
      cases inTable
  · intro listed
    exact ⟨_, List.mem_append_left _ (List.mem_map_of_mem listed), _, _, rfl⟩

end Declaration

/-- Where each step adds its own part, a run has the parts of its steps beside what was there. -/
theorem foldl_iff {σ α : Type} {step : σ → α → σ} {p : σ → Prop} {q : α → Prop}
    (one : ∀ s x, p (step s x) ↔ q x ∨ p s) (items : List α) (s : σ) :
    p (items.foldl step s) ↔ (∃ x ∈ items, q x) ∨ p s := by
  induction items generalizing s with
  | nil => simp
  | cons x items ih =>
      rw [List.foldl_cons, ih, one, List.exists_mem_cons_iff, or_left_comm, or_assoc]

namespace Candidates

open Occurrence

theorem table_countFrom (t : Candidates) (fresh : Candidate) (category : Category)
    (property : Option Text) (literal : Text) (other : Category) :
    (t.countFrom fresh category property literal).table other =
      if other = category then
        (t.table other).alter literal fun old => (old.getD fresh).occur property
      else t.table other := by
  rw [table, countFrom, OrderedMap.get?_alter]
  split_ifs with same
  · rw [same]
    rfl
  · rfl

variable {c : Category} {literal : Text}

/-- An occurrence comes into its own table. -/
theorem mem_table_countIn (t : Candidates) (o : Occurrence) :
    literal ∈ ((o.countIn t).table c).keys ↔
      (∃ property, o = inTable c property literal) ∨ literal ∈ (t.table c).keys := by
  cases o with
  | color => exact ⟨.inr, fun h => h.resolve_left nofun⟩
  | inTable c' property literal' =>
      change literal ∈ ((t.countFrom _ c' property literal').table c).keys ↔ _
      rw [table_countFrom]
      split_ifs with same
      · subst same
        rw [OrderedMap.mem_keys_alter]
        simp [eq_comm]
      · simp [Ne.symm same]

theorem mem_colors_countIn (t : Candidates) (o : Occurrence) :
    literal ∈ (o.countIn t).colors.keys ↔
      (∃ property selector, o = color literal property selector) ∨ literal ∈ t.colors.keys := by
  cases o with
  | inTable => exact ⟨.inr, fun h => h.resolve_left nofun⟩
  | color literal' property selector =>
      refine OrderedMap.mem_keys_alter.trans ?_
      simp [eq_comm]

/-- A declaration adds the literals that are found in it. -/
theorem mem_table_add (t : Candidates) (d : Declaration) :
    literal ∈ ((t.add d).table c).keys ↔ Finds d c literal ∨ literal ∈ (t.table c).keys := by
  rw [add_eq_foldl, ← Declaration.exists_inTable_mem_iff]
  exact foldl_iff (p := fun t => literal ∈ (t.table c).keys) mem_table_countIn _ t

theorem mem_colors_add (t : Candidates) (d : Declaration) :
    literal ∈ (t.add d).colors.keys ↔
      literal ∈ Color.literals d.value ∨ literal ∈ t.colors.keys := by
  rw [add_eq_foldl, ← Declaration.exists_color_mem_iff]
  exact foldl_iff (p := fun t => literal ∈ t.colors.keys) mem_colors_countIn _ t

variable {declarations : List Declaration}

theorem mem_table_collect_iff : literal ∈ ((collect declarations).table c).keys ↔
    ∃ d ∈ declarations, Finds d c literal :=
  (foldl_iff (p := fun t : Candidates => literal ∈ (t.table c).keys) mem_table_add _ _).trans
    (or_iff_left List.not_mem_nil)

theorem mem_colors_collect_iff : literal ∈ (collect declarations).colors.keys ↔
    ∃ d ∈ declarations, literal ∈ Color.literals d.value :=
  (foldl_iff (p := fun t : Candidates => literal ∈ t.colors.keys) mem_colors_add _ _).trans
    (or_iff_left List.not_mem_nil)

/-- All literals of the tables are of some classes. -/
structure Within (colors : Text → Prop) (literals : Category → Text → Prop) (t : Candidates) :
    Prop where
  colors : ∀ literal ∈ t.colors.keys, colors literal
  tables : ∀ c, ∀ literal ∈ (t.table c).keys, literals c literal

/-- Every literal of a stylesheet was found in one of its declarations. -/
theorem within_collect (declarations : List Declaration) :
    Within (fun literal => ∃ d ∈ declarations, literal ∈ Color.literals d.value)
      (fun c literal => ∃ d ∈ declarations, Finds d c literal) (collect declarations) :=
  ⟨fun _ => mem_colors_collect_iff.1, fun _ _ => mem_table_collect_iff.1⟩

theorem mem_spacing_collect_iff : literal ∈ ((collect declarations).table .spacing).keys ↔
    ∃ d ∈ declarations, Property.isSpacing d.property ∧ literal ∈ Length.literals d.value := by
  rw [mem_table_collect_iff]
  constructor
  · rintro ⟨d, hd, found⟩
    cases found with
    | spacing hp hl => exact ⟨d, hd, hp, hl⟩
    | whole hp => simp [wholeValues] at hp
  · rintro ⟨d, hd, hp, hl⟩
    exact ⟨d, hd, .spacing hp hl⟩

end Candidates

end DesignTokens
