import DesignTokens.Candidates
import DesignTokens.Proofs.OrderedMaps

/-!
What a declaration adds to the candidates, as a list of occurrences: of a color in a property under
a selector, or of a literal in a category. Adding the declaration is counting them one by one, so
what one of them keeps is kept by every declaration. Main statement: `add_eq_foldl`.
-/
namespace DesignTokens

/-- What a literal starts from in a category. -/
def Candidate.fresh (c : Category) (literal : Text) : Candidate :=
  { milliseconds := if c = .durations then some (Duration.milliseconds literal) else none }

theorem Candidate.fresh_of_ne {c : Category} (hc : c ≠ .durations) (literal : Text) :
    fresh c literal = {} := by
  rw [fresh, if_neg hc]

inductive Occurrence where
  | color (literal property selector : Text)
  | inTable (category : Category) (property : Option Text) (literal : Text)

namespace Occurrence

def countIn (t : Candidates) : Occurrence → Candidates
  | color literal property selector => t.countColor literal property selector
  | inTable c property literal => t.countFrom (.fresh c literal) c property literal

def isColor : Occurrence → Bool
  | color .. => true
  | inTable .. => false

end Occurrence

namespace Declaration

open Occurrence

def colorOccurrences (d : Declaration) : List Occurrence :=
  (Color.literals d.value).map fun l => color l d.property d.selector

def familyOccurrences (value : Text) : List Occurrence :=
  if Value.isWideKeyword (Value.fontFamily value) then []
  else [inTable .fontFamilies none (Value.fontFamily value)]

def shorthandOccurrences (value : Text) : List Occurrence :=
  let font := FontShorthand.parse value
  font.size.toList.map (inTable .fontSizes none) ++
    font.lineHeight.toList.map (inTable .lineHeights none) ++
    font.weight.toList.map (inTable .fontWeights none) ++
    font.family.toList.flatMap familyOccurrences

def typographyOccurrences (d : Declaration) : List Occurrence :=
  if d.property = "font".toList then shorthandOccurrences d.value
  else if d.property = "font-family".toList then familyOccurrences d.value
  else (Candidates.wholeValues.lookup d.property).toList.map (inTable · none d.value)

def spacingOccurrences (d : Declaration) : List Occurrence :=
  if Property.isSpacing d.property then
    (Length.literals d.value).map (inTable .spacing (some d.property))
  else []

def borderOccurrences (d : Declaration) : List Occurrence :=
  if Property.isBorder d.property then
    (Length.firstLiteral? d.value).toList.map (inTable .borderWidths none)
  else []

def radiusOccurrences (d : Declaration) : List Occurrence :=
  if d.property = "border-radius".toList then [inTable .radii none (Value.radius d.value)] else []

def shadowOccurrences (d : Declaration) : List Occurrence :=
  if d.property = "box-shadow".toList then [inTable .shadows none (Value.shadow d.value)] else []

def motionOccurrences (d : Declaration) : List Occurrence :=
  if Property.isMotion d.property then
    (Duration.literals d.value).map (inTable .durations none) ++
      (Easing.literals d.value).map (inTable .easings none)
  else []

/-- The occurrences in categories. -/
def tableOccurrences (d : Declaration) : List Occurrence :=
  d.typographyOccurrences ++ d.spacingOccurrences ++ d.borderOccurrences ++ d.radiusOccurrences ++
    d.shadowOccurrences ++ d.motionOccurrences

/-- All occurrences in the order in which they are counted. -/
def occurrences (d : Declaration) : List Occurrence := d.colorOccurrences ++ d.tableOccurrences

end Declaration

namespace Candidates

open Occurrence

variable (t : Candidates) (d : Declaration)

theorem count_eq {c : Category} (hc : c ≠ .durations) (l : Text) :
    t.count c l = countIn t (inTable c none l) := by
  change _ = t.countFrom (.fresh c l) c none l
  rw [Candidate.fresh_of_ne hc]
  rfl

theorem countOption_eq {c : Category} (hc : c ≠ .durations) (o : Option Text) :
    t.countOption c o = (o.toList.map (inTable c none)).foldl countIn t := by
  cases o with
  | none => rfl
  | some l => exact count_eq t hc l

theorem foldl_count_eq {c : Category} (hc : c ≠ .durations) (literals : List Text) :
    literals.foldl (count c) t = (literals.map (inTable c none)).foldl countIn t := by
  rw [List.foldl_map]
  exact List.foldl_ext _ _ t fun t l _ => count_eq t hc l

theorem addColors_eq : t.addColors d = d.colorOccurrences.foldl countIn t := by
  rw [Declaration.colorOccurrences, List.foldl_map]
  rfl

theorem addFamily_eq (value : Text) :
    t.addFamily value = (Declaration.familyOccurrences value).foldl countIn t := by
  rw [addFamily, Declaration.familyOccurrences]
  split
  · rfl
  · exact count_eq t (by decide) _

theorem addShorthand_eq (value : Text) :
    t.addShorthand value = (Declaration.shorthandOccurrences value).foldl countIn t := by
  rw [addShorthand, Declaration.shorthandOccurrences]
  simp only [List.foldl_append, countOption_eq _ (c := .fontSizes) (by decide),
    countOption_eq _ (c := .lineHeights) (by decide),
    countOption_eq _ (c := .fontWeights) (by decide)]
  cases (FontShorthand.parse value).family with
  | none => rfl
  | some family =>
      rw [Option.elim_some, addFamily_eq, Option.toList_some, List.flatMap_singleton]

theorem addTypography_eq : t.addTypography d = d.typographyOccurrences.foldl countIn t := by
  rw [addTypography, Declaration.typographyOccurrences]
  split
  · exact addShorthand_eq t d.value
  split
  · exact addFamily_eq t d.value
  cases found : wholeValues.lookup d.property with
  | none => rfl
  | some c =>
      have others : ∀ e ∈ wholeValues, e.2 ≠ .durations := by decide
      exact count_eq t (others _ (mem_of_lookup_eq_some found)) d.value

theorem addSpacing_eq : t.addSpacing d = d.spacingOccurrences.foldl countIn t := by
  rw [addSpacing, Declaration.spacingOccurrences]
  split
  · rw [List.foldl_map]
    rfl
  · rfl

theorem addBorder_eq : t.addBorder d = d.borderOccurrences.foldl countIn t := by
  rw [addBorder, Declaration.borderOccurrences]
  split
  · exact countOption_eq t (by decide) _
  · rfl

theorem addRadius_eq : t.addRadius d = d.radiusOccurrences.foldl countIn t := by
  rw [addRadius, Declaration.radiusOccurrences]
  split
  · exact count_eq t (by decide) _
  · rfl

theorem addShadow_eq : t.addShadow d = d.shadowOccurrences.foldl countIn t := by
  rw [addShadow, Declaration.shadowOccurrences]
  split
  · exact count_eq t (by decide) _
  · rfl

theorem addMotion_eq : t.addMotion d = d.motionOccurrences.foldl countIn t := by
  rw [addMotion, Declaration.motionOccurrences]
  split
  · rw [List.foldl_append, foldl_count_eq _ (by decide), List.foldl_map (l := Duration.literals _)]
    rfl
  · rfl

/-- A declaration is added by counting its occurrences. -/
theorem add_eq_foldl : t.add d = d.occurrences.foldl countIn t := by
  simp only [Declaration.occurrences, Declaration.tableOccurrences, List.foldl_append,
    ← addColors_eq, ← addTypography_eq, ← addSpacing_eq, ← addBorder_eq, ← addRadius_eq,
    ← addShadow_eq, ← addMotion_eq]
  rfl

end Candidates

end DesignTokens
