import DesignTokens.Proofs.KeptReferences
import DesignTokens.Proofs.PassedValues

/-!
Features that do not disturb each other. The passes for typography, spacing, borders and motion each
leave the values of all properties outside of a family of their own, and a pass that puts references
between two others keeps what these are given. So a sheet that is rewritten with one of the features
more has the same declarations, and only values of the family differ. Main statement:
`substitute_agreeOutside`.
-/
namespace DesignTokens

open Text Value

/-- The properties whose values a feature is for. -/
def Feature.owns : Feature → Text → Bool
  | .typography, property =>
    property = "font".toList || property = "font-family".toList ||
      (Candidates.wholeValues.lookup property).isSome
  | .spacing, property => Property.isSpacing property
  | .borders, property => Property.isBorder property
  | .motion, property => Property.isMotion property
  | .radius, property => property = "border-radius".toList
  | .shadows, property => property = "box-shadow".toList
  | .colors, _ => true

/-- Two declarations that agree but for the values of some properties. -/
structure Declaration.AgreeOutside (family : Text → Bool) (d d' : Declaration) : Prop where
  selector_eq : d.selector = d'.selector
  property_eq : d.property = d'.property
  value_eq : family d.property = false → d.value = d'.value

/-- A name of a token after its two dashes: characters of words and hyphens. -/
def TokenName.IsWord (name : Text) : Prop :=
  ∃ rest, name = "--".toList ++ rest ∧ ∀ c ∈ rest, Block.isNameChar c

theorem TokenName.IsWord.of_take {name : Text}
    (h : name.take 2 = "--".toList ∧ (name.drop 2).all Block.isNameChar) : IsWord name := by
  refine ⟨name.drop 2, ?_, List.all_eq_true.1 h.2⟩
  rw [← h.1, List.take_append_drop]

theorem TokenName.IsWord.notMem {name : Text} (h : IsWord name) {c : Char}
    (hc : Block.isNameChar c = false) : c ∉ name := by
  obtain ⟨rest, rfl, chars⟩ := h
  intro mem
  rcases List.mem_append.1 mem with dash | inside
  · have dashes : ∀ c ∈ "--".toList, Block.isNameChar c := List.all_eq_true.1 (by decide)
    exact absurd (dashes c dash) (by simp [hc])
  · exact absurd (chars c inside) (by simp [hc])

theorem TokenName.IsWord.fits_reference {name : Text} (h : IsWord name) : Fits (reference name) := by
  constructor
  · have plain : ';' ∉ name := h.notMem (by decide)
    simp [reference, plain]
  · have plain : '}' ∉ name := h.notMem (by decide)
    simp [reference, plain]

namespace Pass

variable {property v : Text} {p : Pass} {passes others : List Pass}

/-- A pass that may be run or not matters only for the properties that it does not leave. -/
theorem applyAll_passesIf {c c' : Bool} (h : c' = c ∨ p.Leaves property)
    (later : ∀ v, Settled v → applyAll others property v = applyAll passes property v)
    (hv : Settled v) : applyAll (TokenTables.passesIf c' p ++ others) property v =
      applyAll (TokenTables.passesIf c p ++ passes) property v := by
  have either : c' = c ∨ ∀ b, applyAll (TokenTables.passesIf b p) property v = v :=
    h.imp_right fun leaves b => applyAll_of_leaves (TokenTables.forall_mem_passesIf leaves) hv
  rw [applyAll_append, applyAll_append, later _ (settled_applyAll hv)]
  rcases either with same | left
  · rw [same]
  · rw [left, left]

end Pass

namespace TokenTables

variable {tokens : TokenTables} {weights : List (Text × Template)} {property : Text}

theorem leaves_typography (h : Feature.typography.owns property = false) :
    (Pass.values (typographyValue weights tokens)).Leaves property := by
  simp only [Feature.owns, Bool.or_eq_false_iff, decide_eq_false_iff_not] at h
  obtain ⟨⟨font, family⟩, whole⟩ := h
  intro v
  have none : Candidates.wholeValues.lookup property = none := by simpa using whole
  rw [typographyValue, if_neg family, if_neg font, none]

/-- An added feature changes what is enabled only for itself. -/
theorem contains_cons_or (f g : Feature) (features : List Feature) :
    (f :: features).contains g = features.contains g ∨ f = g := by
  by_cases same : f = g
  · exact .inr same
  · left
    rw [List.contains_cons, beq_false_of_ne (Ne.symm same), Bool.false_or]

theorem enables_cons_or (f g : Feature) (features : List Feature) (categories : List Category) :
    tokens.enables (f :: features) g categories = tokens.enables features g categories ∨ f = g :=
  (contains_cons_or f g features).imp_left fun same => by rw [enables, enables, same]

theorem earlyPasses_cons {f : Feature} (hf : f ∈ [Feature.typography, .spacing, .borders, .motion])
    (features : List Feature) : tokens.earlyPasses (f :: features) = tokens.earlyPasses features := by
  have other (g : Feature) (hg : g ∉ [Feature.typography, .spacing, .borders, .motion]) : f ≠ g :=
    fun same => hg (same ▸ hf)
  have shadows := (@enables_cons_or tokens f .shadows features [.shadows]).resolve_right
    (other _ (by decide))
  have radius := (@enables_cons_or tokens f .radius features [.radii]).resolve_right
    (other _ (by decide))
  have colors := (contains_cons_or f .colors features).resolve_right (other _ (by decide))
  rw [earlyPasses, earlyPasses, shadows, radius, colors]

/-- With one feature more the passes make the same of a value outside of its family. -/
theorem applyAll_laterPasses_cons {f : Feature} (h : f.owns property = false)
    (features : List Feature) {v : Text} (hv : Settled v) :
    Pass.applyAll (laterPasses weights tokens (f :: features)) property v =
      Pass.applyAll (laterPasses weights tokens features) property v := by
  have owned (g : Feature) : f = g → g.owns property = false := fun same => same ▸ h
  rw [laterPasses, laterPasses, latePasses, latePasses, List.append_assoc, List.append_assoc]
  refine Pass.applyAll_passesIf
    ((contains_cons_or f .typography features).imp_right fun same =>
      leaves_typography (owned .typography same)) (fun v hv => ?_) hv
  refine Pass.applyAll_passesIf
    ((enables_cons_or f .spacing features _).imp_right fun same =>
      leaves_onFamily (owned .spacing same)) (fun v hv => ?_) hv
  refine Pass.applyAll_passesIf
    ((enables_cons_or f .borders features _).imp_right fun same =>
      leaves_onFamily (owned .borders same)) (fun v hv => ?_) hv
  have motion := (@enables_cons_or tokens f .motion features [.durations, .easings]).imp_right
    fun same => (leaves_onFamily (owned .motion same) : tokens.motionPass.Leaves property)
  have alone := @Pass.applyAll_passesIf property v _ [] [] _ _ motion (fun _ _ => rfl) hv
  rwa [List.append_nil, List.append_nil] at alone

/-- Typography, spacing, borders and motion are independent of each other and of the other features:
with one of them more, a sheet has the same declarations with the same values but for the values of
the properties of this feature. -/
theorem substitute_agreeOutside (names : ∀ c, ∀ e ∈ (tokens.table c).entries, TokenName.IsWord e.2)
    {f : Feature} (hf : f ∈ [Feature.typography, .spacing, .borders, .motion])
    (features : List Feature) (t : Text) :
    ∃ out out', tokens.substitute features t = .ok out ∧
      tokens.substitute (f :: features) t = .ok out' ∧
        List.Forall₂ (Declaration.AgreeOutside f.owns) (Declaration.parse out)
          (Declaration.parse out') := by
  have weights : FontShorthand.weightTemplates tokens = .ok (FontShorthand.plainTemplates tokens) :=
    FontShorthand.weightTemplates_eq fun e he => (names _ e he).notMem (by decide)
  have fits : ∀ name ∈ tokens.tableNames, Fits (reference name) :=
    forall_mem_tableNames fun c e he => (names c e he).fits_reference
  refine ⟨_, _, substitute_eq_runAll weights features t,
    substitute_eq_runAll weights (f :: features) t, ?_⟩
  rw [earlyPasses_cons hf, Pass.runAll_append, Pass.runAll_append,
    Pass.parse_runAll fits (inserts_laterPasses tokens.mem_tableNames _),
    Pass.parse_runAll fits (inserts_laterPasses tokens.mem_tableNames _), List.forall₂_map_left_iff,
    List.forall₂_map_right_iff, List.forall₂_same]
  refine fun d hd => ⟨rfl, rfl, fun outside => ?_⟩
  exact congrArg trim (applyAll_laterPasses_cons outside features
    (Declaration.settled_of_mem_raw d hd)).symm

/-- Tokens for a spacing and for a width of borders. -/
def twoLengths : TokenTables where
  tables := .ofList [(.spacing, .ofList [("4px".toList, "--space-1".toList)]),
    (.borderWidths, .ofList [("1px".toList, "--border-width-1".toList)])]

theorem substitute_agreeOutside_twoLengths :
    (∀ c, ∀ e ∈ (twoLengths.table c).entries, TokenName.IsWord e.2) ∧
      Feature.spacing ∈ [Feature.typography, .spacing, .borders, .motion] ∧
      ∃ out out', let sheet := "a\x7bmargin:4px;border:1px solid\x7d".toList
        twoLengths.substitute [.borders] sheet = .ok out ∧
          twoLengths.substitute [.spacing, .borders] sheet = .ok out' ∧
            List.Forall₂ (Declaration.AgreeOutside Feature.spacing.owns) (Declaration.parse out)
              (Declaration.parse out') := by
  have names : ∀ c, ∀ e ∈ (twoLengths.table c).entries, TokenName.IsWord e.2 := by
    intro c e he
    have tested : Category.all.all fun c => (twoLengths.table c).entries.all fun e =>
        e.2.take 2 = "--".toList ∧ (e.2.drop 2).all Block.isNameChar := by decide +kernel
    have every : c ∈ Category.all := by cases c <;> decide
    exact .of_take (by simpa using List.all_eq_true.1 (List.all_eq_true.1 tested c every) e he)
  have member : Feature.spacing ∈ [Feature.typography, .spacing, .borders, .motion] := by decide
  exact ⟨names, member, substitute_agreeOutside names member [.borders] _⟩

end TokenTables

end DesignTokens
