import DesignTokens.Proofs.KeptFrames
import DesignTokens.Proofs.PassedFlags
import DesignTokens.Proofs.WholeReferences

/-!
Importance of a stylesheet that is rewritten. A shadow or a radius is looked up with the flag at its
end, and so are font families, sizes, line heights, weights and letter spacings: a reference stands
for the value and the flag. Any other declaration is as important as before. Main statement:
`importance_kept`.
-/
namespace DesignTokens

open Text Value

/-- The properties whose values are compared as wholes before the pass for colors. -/
def wholeProperties : List Text := ["box-shadow".toList, "border-radius".toList]

/-- The properties whose values the pass for typography takes as wholes. -/
def typographyWholes : List Text := "font-family".toList :: Candidates.wholeValues.map Prod.fst

/-- The importance of a declaration before and after: none is added, that of shadows and radii is
lost, and any other is kept unless the pass for typography gets the declaration. -/
structure Declaration.KeepsImportance (d d' : Declaration) : Prop where
  added : IsImportant d'.value → IsImportant d.value
  lost : d.property ∈ wholeProperties → ¬ IsImportant d'.value
  kept : d.property ∉ wholeProperties → d'.property ∉ "font".toList :: typographyWholes →
    IsImportant d.value → IsImportant d'.value

/-- A declaration of a sheet loses its flag where the pass for typography takes it as a whole. -/
def Declaration.LosesFlag (sheet : List Declaration) (d d' : Declaration) : Prop :=
  d.property ∈ typographyWholes → (∃ o ∈ sheet, o.property = d.property ∧ o.value = d.value) →
    ¬ IsImportant d'.value

theorem Value.Settled.first {v : Text} (hv : Settled v) (h : IsImportant v) :
    nextIs isBlank v = false := by
  cases rest : trimLeft (' ' :: v) with
  | nil =>
      have blank := trimLeft_eq_nil_iff.1 rest
      rw [IsImportant, trim_eq_nil_of_blank fun c hc => blank c (List.mem_cons_of_mem _ hc)] at h
      exact absurd h (by decide)
  | cons c tail =>
      have first : isBlank c = false := by simpa using of_dropWhile_eq_cons rest
      rw [Settled, Block.valueOf, rest] at hv
      rwa [← hv]

theorem Value.trim_ne_nil_of_isImportant {v : Text} (h : IsImportant v) : trim v ≠ [] := by
  intro empty
  rw [IsImportant, empty] at h
  exact absurd h (by decide)

theorem not_isImportant_of_isWideKeyword {v : Text} (h : isWideKeyword v) : ¬ IsImportant v := by
  intro important
  rw [isWideKeyword, List.contains_iff_mem] at h
  have mark : '!' ∈ trim v := important.subset (by decide)
  have keywords : ∀ k ∈ wideKeywords, '!' ∉ k := by decide
  exact keywords _ h (mem_lower_of_mem mark (by decide) (by decide) (by decide))

namespace Tokenization

variable {t : Text} {r : Tokenization}

/-- A sheet without colors is tokenized by default, with no token for a color. -/
theorem exists_made_of_colorless (h : ∀ d ∈ Declaration.parse t, Color.literals d.value = []) :
    ∃ r palette, ofText .default t = .ok r ∧ Made t r palette ∧ r.tokens.colors.entries = [] := by
  have made : ∃ r, ofText .default t = .ok r :=
    exists_ofText_of_colorless h fun prefers => Bool.noConfusion prefers
  obtain ⟨r, made⟩ := made
  obtain ⟨palette, m⟩ := exists_made made
  refine ⟨r, palette, made, m, List.eq_nil_iff_forall_not_mem.2 fun e he => ?_⟩
  obtain ⟨d, hd, found⟩ := m.finds_color he
  exact absurd (h d hd ▸ found) List.not_mem_nil

theorem leaves_wholePasses {property : Text} (hp : property ∉ wholeProperties) :
    ∀ p ∈ r.tokens.wholePasses r.config.features, p.Leaves property := by
  rw [wholeProperties, List.mem_cons, List.mem_singleton, not_or] at hp
  exact TokenTables.forall_mem_wholePasses (TokenTables.leaves_onFamily (decide_eq_false hp.1))
    (TokenTables.leaves_onFamily (decide_eq_false hp.2)) _

section Made

variable {palette : Palette} (m : Made t r palette) (h : ofText .default t = .ok r)
include m h

/-- Shadows and radii have become references, without a flag. -/
theorem not_isImportant_wholePasses {d : Declaration} (hd : d ∈ Declaration.raw r.converted)
    (hp : d.property ∈ wholeProperties) : ¬ IsImportant
      (Pass.applyAll (r.tokens.wholePasses r.config.features) d.property d.value) := by
  have settled := Declaration.settled_of_mem_raw d hd
  have declared : { d with value := trim d.value } ∈ Declaration.parse r.converted :=
    Declaration.parse_eq_map_raw r.converted ▸ List.mem_map_of_mem hd
  have found {c : Category} {normal : Text → Text} (hc : c.Compares d.property normal)
      (plain : c ≠ .fontFamilies) : r.tokens.enables r.config.features c.feature [c] ∧
        ∃ name, (r.tokens.table c).replaceWhole normal d.value = reference name := by
    have enabled : Config.default.has c.feature := by cases c <;> rfl
    obtain ⟨name, token⟩ := exists_token h declared hc enabled fun same => absurd same plain
    rw [hc.trim_eq] at token
    have valid := m.valid c _ (OrderedMap.mem_of_get?_eq_some token)
    exact ⟨TokenTables.enables_of_get? (m.config ▸ enabled) token, name,
      TokenMap.replaceWhole_of_get? token valid.ne_nil⟩
  have inserts := m.inserts_wholePasses
  rw [wholeProperties, List.mem_cons, List.mem_singleton] at hp
  rcases hp with shadow | radius
  · have compares : Category.shadows.Compares d.property Value.shadow := shadow ▸ .shadows
    obtain ⟨enabled, name, whole⟩ := found compares (by decide)
    have put : r.tokens.shadowPass.apply d.property d.value = reference name := by
      rw [shadow]
      exact Pass.apply_values ((TokenTables.onFamily_of rfl).trans whole)
    exact @Pass.not_isImportant_applyAll r.document.rootNames _ [] _ _ _ _ settled nofun enabled
      (put ▸ not_isImportant_reference name) fun p hp => inserts p (List.mem_append_right _ hp)
  · have compares : Category.radii.Compares d.property Value.radius := radius ▸ .radii
    obtain ⟨enabled, name, whole⟩ := found compares (by decide)
    have put : r.tokens.radiusPass.apply d.property d.value = reference name := by
      rw [radius]
      exact Pass.apply_values ((TokenTables.onFamily_of rfl).trans whole)
    have before : ∀ p ∈ TokenTables.passesIf
        (r.tokens.enables r.config.features .shadows [.shadows]) r.tokens.shadowPass,
        p.Leaves d.property := by
      rw [radius]
      exact TokenTables.forall_mem_passesIf (TokenTables.leaves_onFamily (by decide))
    have dropped := @Pass.not_isImportant_applyAll r.document.rootNames _ _ [] _ _ _ settled before
      enabled (put ▸ not_isImportant_reference name) nofun
    rwa [List.append_nil] at dropped

omit h in
/-- The passes after the one for colors keep the flags of values that are not typography. -/
theorem isImportant_laterPasses {property v : Text}
    (hp : property ∉ "font".toList :: typographyWholes) (hv : IsImportant v) :
    IsImportant (Pass.applyAll (.values r.typography :: r.tokens.latePasses r.config.features)
      property v) := by
  rw [typographyWholes, List.mem_cons, List.mem_cons, not_or, not_or] at hp
  obtain ⟨shorthand, family, longhand⟩ := hp
  have leaves : (Pass.values r.typography).Leaves property := fun v =>
    typographyValue_of_notMem (fun hp => (List.mem_cons.1 hp).elim shorthand longhand) family v
  have clear : ∀ c ∈ [Category.spacing, .borderWidths, .durations, .easings],
      ∀ e ∈ (r.tokens.table c).entries, ClearOfFlag e.1 := by
    intro c hc e he
    obtain ⟨d, -, found⟩ := m.finds he
    exact found.clearOfFlag hc
  exact Pass.isImportant_applyAll (List.forall_mem_cons.2 ⟨leaves.keepsFlag,
    TokenTables.keepsFlag_latePasses clear⟩) hv

omit h in
/-- A flag that the pass for typography drops is dropped. -/
theorem not_isImportant_laterPasses {property v : Text}
    (hv : ¬ IsImportant (r.typography property v)) :
    ¬ IsImportant (Pass.applyAll (.values r.typography :: r.tokens.latePasses r.config.features)
      property v) := by
  intro important
  have first : IsImportant ((Pass.values r.typography).apply property v) :=
    Pass.isImportant_of_applyAll
      (fun p hp => m.inserts_laterPasses p (List.mem_cons_of_mem _ hp)) important
  exact hv (Pass.isImportant_apply_values.1 first)

/-- What the pass for typography takes as a whole loses its flag. -/
theorem not_isImportant_typography {d : Declaration} (hd : d ∈ Declaration.parse r.converted)
    (hp : d.property ∈ typographyWholes) {v : Text} (settled : Settled v)
    (hv : d.value = trim v) : ¬ IsImportant (r.typography d.property v) := by
  intro left
  have important : IsImportant v :=
    (TokenTables.insertions_typographyValue m.declared d.property v).isImportant left
  rcases List.mem_cons.1 hp with family | longhand
  · have compares : Category.fontFamilies.Compares d.property Value.fontFamily :=
      family ▸ .fontFamilies
    have plain : isWideKeyword d.value = false := by
      by_contra keyword
      refine not_isImportant_of_isWideKeyword (Bool.not_eq_false _ ▸ keyword) ?_
      rwa [hv, isImportant_trim]
    obtain ⟨name, token⟩ := exists_token h hd compares rfl fun _ => plain
    rw [hv, fontFamily_trim] at token
    have valid := m.valid .fontFamilies _ (OrderedMap.mem_of_get?_eq_some token)
    have whole : r.typography d.property v = reference name := by
      rw [family]
      exact TokenMap.replaceWhole_of_get? token valid.ne_nil
    exact not_isImportant_reference name (whole ▸ left)
  · have table : ∀ p ∈ Candidates.wholeValues.map Prod.fst,
        (Candidates.wholeValues.lookup p).isSome ∧
          p ≠ "font-family".toList ∧ p ≠ "font".toList := by decide
    obtain ⟨found, family, shorthand⟩ := table _ longhand
    obtain ⟨c, hc⟩ := Option.isSome_iff_exists.1 found
    have enabled : Config.default.has c.feature := by cases c <;> rfl
    obtain ⟨name, token⟩ := exists_token_of_finds h hd enabled (.of_lookup hc)
    rw [hv] at token
    have lone : r.typography d.property v = (r.tokens.table c).substituteLone .anyCase v := by
      rw [typography, TokenTables.typographyValue, if_neg family, if_neg shorthand, hc]
    refine TokenMap.not_isImportant_substituteLone (settled.first important)
      (trim_ne_nil_of_isImportant important) token ?_
    rwa [← lone]

/-- The flags after all passes but that for colors. -/
theorem keepsImportance_of_placed {e e' : Nat × Declaration}
    (he : e ∈ Declaration.placed r.converted)
    (he' : e' ∈ Declaration.placed (Pass.runAll r.passes r.converted)) (place : e'.1 = e.1) :
    e.2.KeepsImportance e'.2 := by
  have whole := m.inserts_wholePasses
  have later := m.inserts_laterPasses
  rw [passes, Pass.runAll_append] at he'
  obtain ⟨d, hd, value, left⟩ := Pass.exists_after m.fits_rootNames whole he
  obtain ⟨d', -, right, value'⟩ := Pass.exists_before m.fits_rootNames later he'
  change (e.1, _) ∈ Declaration.placed r.uncolored at left
  change (e'.1, _) ∈ Declaration.placed r.colored at right
  have clear : ∀ e ∈ r.tokens.colors.byLength, ClearOfFlag e.1 := by
    intro e he
    obtain ⟨d, -, found⟩ := m.finds_color (TokenMap.mem_byLength.1 he)
    exact .of_color found
  rw [m.colored_eq] at right
  have colors := isImportant_iff_of_placed (fun e he => m.replaceable_color e (TokenMap.mem_byLength.1 he)) clear left
    right place
  rw [isImportant_trim, isImportant_trim] at colors
  rw [value, value']
  constructor
  · intro important
    rw [isImportant_trim] at important ⊢
    have early := colors.1 (Pass.isImportant_of_applyAll later important)
    exact Pass.isImportant_of_applyAll whole early
  · intro property important
    rw [isImportant_trim] at important
    exact not_isImportant_wholePasses m h hd property
      (colors.1 (Pass.isImportant_of_applyAll later important))
  · intro property property' important
    rw [isImportant_trim] at important ⊢
    have early := Pass.isImportant_applyAll
      (fun p hp => (@leaves_wholePasses r _ property p hp).keepsFlag) important
    exact isImportant_laterPasses m property' (colors.2 early)

end Made

/-- A stylesheet is rewritten by default. -/
theorem importance_kept (h : ofText .default t = .ok r) :
    ∃ out, r.tokens.substitute r.config.features r.converted = .ok out ∧
      (∀ l, Sheet.Lays r.uncolored l → (∀ e ∈ r.tokens.colors.entries, l.Confines e.1) →
        SameFrame out r.converted ∧ List.Forall₂ Declaration.KeepsImportance
          (Declaration.parse r.converted) (Declaration.parse out)) ∧
      (∀ e ∈ Declaration.placed r.converted, ∀ e' ∈ Declaration.placed out, e'.1 = e.1 →
        e.2.KeepsImportance e'.2) ∧
      List.Forall₂ (Declaration.LosesFlag (Declaration.parse r.converted))
        (Declaration.parse r.colored) (Declaration.parse out) := by
  obtain ⟨palette, m⟩ := exists_made h
  have whole := m.inserts_wholePasses
  have later := m.inserts_laterPasses
  have split : Pass.runAll r.passes r.converted = Pass.runAll _ r.colored :=
    Pass.runAll_append _ _ _
  have kept : ∀ e ∈ Declaration.placed r.converted,
      ∀ e' ∈ Declaration.placed (Pass.runAll r.passes r.converted), e'.1 = e.1 →
        e.2.KeepsImportance e'.2 :=
    fun e he e' he' place => keepsImportance_of_placed m h he he' place
  refine ⟨_, m.substitute_eq, fun l hl hc => ⟨?_, ?_⟩, kept, ?_⟩
  · exact (m.sameFrame_passes.trans (m.sameFrame_colored hl hc)).trans m.sameFrame_uncolored
  · refine Declaration.forall₂_of_placed ?_ kept
    obtain ⟨admits, text⟩ := hl.substituteAll_text m.replaceable_color hc
    calc Declaration.places (Pass.runAll r.passes r.converted)
        = Declaration.places r.colored := by
          rw [split, Pass.places_runAll m.fits_rootNames later]
      _ = Declaration.places r.uncolored := by
          rw [m.colored_eq, text, hl.places_mapValues admits]
      _ = Declaration.places r.converted := Pass.places_runAll m.fits_rootNames whole _
  · rw [split, Pass.parse_runAll m.fits_rootNames later, Declaration.parse_eq_map_raw r.colored,
      List.forall₂_map_left_iff, List.forall₂_map_right_iff, List.forall₂_same]
    rintro d hd property ⟨o, ho, same, value⟩ important
    rw [isImportant_trim] at important
    refine not_isImportant_laterPasses m ?_ important
    rw [← same]
    exact not_isImportant_typography m h ho (same ▸ property)
      (Declaration.settled_of_mem_raw d hd) value

/-- A sheet with an important length and an important shadow. -/
def importantMargin : Text :=
  "a\x7bmargin:4px !important;box-shadow:0 1px 2px !important\x7d".toList

theorem importance_kept_importantMargin : ∃ r out, ofText .default importantMargin = .ok r ∧
    r.tokens.substitute r.config.features r.converted = .ok out ∧
      (Declaration.parse r.converted).map (fun d => (d.property, decide (IsImportant d.value))) =
        [("margin".toList, true), ("box-shadow".toList, true)] ∧
      (Declaration.parse out).map (fun d => (d.property, decide (IsImportant d.value))) =
        [("margin".toList, true), ("box-shadow".toList, false)] := by
  have parsed : Declaration.parse importantMargin =
      [⟨"a".toList, "margin".toList, "4px !important".toList⟩,
        ⟨"a".toList, "box-shadow".toList, "0 1px 2px !important".toList⟩] := by cbv
  obtain ⟨r, palette, h, m, none⟩ := @exists_made_of_colorless importantMargin (by
    rw [parsed]
    decide +kernel)
  obtain ⟨l, hl⟩ := Sheet.exists_lays r.uncolored
  obtain ⟨out, substituted, confined, -, -⟩ := importance_kept h
  obtain ⟨frame, kept⟩ := confined l hl (by simp [none])
  have declared := frame.declared
  rw [m.converted, parsed] at kept declared
  obtain ⟨margin, others, first, rest, same⟩ := List.forall₂_cons_left_iff.1 kept
  obtain ⟨shadow, others', second, rest', rfl⟩ := List.forall₂_cons_left_iff.1 rest
  obtain rfl := List.forall₂_nil_left_iff.1 rest'
  rw [same] at declared
  simp only [List.map_cons, List.map_nil, List.cons.injEq, Prod.mk.injEq] at declared
  obtain ⟨⟨-, property⟩, ⟨-, property'⟩, -⟩ := declared
  have important : IsImportant margin.value :=
    first.kept (by decide) (property ▸ by decide) (by decide)
  have dropped : ¬ IsImportant shadow.value := second.lost (by decide)
  refine ⟨r, out, h, substituted, ?_, ?_⟩
  · rw [m.converted, parsed]
    decide +kernel
  · simp [same, property, property', important, dropped]

/-- A sheet whose declarations are all important, and none any more after it is rewritten. -/
def DropsFlags (t : Text) : Prop := ∃ r out, ofText .default t = .ok r ∧
  r.tokens.substitute r.config.features r.converted = .ok out ∧ SameFrame out r.converted ∧
    (∀ d ∈ Declaration.parse r.converted, IsImportant d.value) ∧
      ∀ d ∈ Declaration.parse out, ¬ IsImportant d.value

/-- Without colors flags are dropped where shadows and radii are, or the pass for typography drops
them. -/
theorem dropsFlags_of_colorless
    (colorless : ∀ d ∈ Declaration.parse t, Color.literals d.value = [])
    (h : ∀ r palette, ofText .default t = .ok r → Made t r palette → ∀ d ∈ Declaration.raw t,
      IsImportant d.value ∧
        (d.property ∈ wholeProperties ∨ ¬ IsImportant (r.typography d.property d.value))) :
    DropsFlags t := by
  obtain ⟨r, palette, made, m, none⟩ := exists_made_of_colorless colorless
  have all := h r palette made m
  have inserts := List.forall_mem_append.2 ⟨m.inserts_wholePasses, m.inserts_laterPasses⟩
  have run : Pass.runAll r.passes r.converted = Pass.runAll
      (r.tokens.wholePasses r.config.features ++
        .values r.typography :: r.tokens.latePasses r.config.features) r.converted := by
    rw [passes, Pass.runAll_append, Pass.runAll_append]
    exact congrArg _ (m.colored_of_colorless none)
  refine ⟨r, _, made, m.substitute_eq, ?_, ?_, ?_⟩
  · rw [run]
    exact Pass.sameFrame_runAll m.fits_rootNames inserts _
  · rw [m.converted, Declaration.parse_eq_map_raw, List.forall_mem_map]
    exact fun d hd => isImportant_trim.2 (all d hd).1
  · rw [run, Pass.parse_runAll m.fits_rootNames inserts, List.forall_mem_map, m.converted]
    intro d hd
    rw [isImportant_trim, Pass.applyAll_append]
    by_cases whole : d.property ∈ wholeProperties
    · rw [← m.converted] at hd
      exact mt (Pass.isImportant_of_applyAll m.inserts_laterPasses)
        (not_isImportant_wholePasses m made hd whole)
    · rw [Pass.applyAll_of_leaves (leaves_wholePasses whole) (Declaration.settled_of_mem_raw d hd)]
      exact not_isImportant_laterPasses m ((all d hd).2.resolve_left whole)

/-- A sheet with a flag in every value that is taken as a whole. -/
def importantWholes : Text :=
  "a\x7bbox-shadow:0 1px !important;border-radius:4px !important;font-family:A !important;".toList ++
    "font-size:1em !important;line-height:2 !important;font-weight:700 !important;".toList ++
      "letter-spacing:1px !important\x7d".toList

/-- Its declarations. -/
def wholeDeclarations : List Declaration :=
  [⟨"a".toList, "box-shadow".toList, "0 1px !important".toList⟩,
    ⟨"a".toList, "border-radius".toList, "4px !important".toList⟩,
    ⟨"a".toList, "font-family".toList, "A !important".toList⟩,
    ⟨"a".toList, "font-size".toList, "1em !important".toList⟩,
    ⟨"a".toList, "line-height".toList, "2 !important".toList⟩,
    ⟨"a".toList, "font-weight".toList, "700 !important".toList⟩,
    ⟨"a".toList, "letter-spacing".toList, "1px !important".toList⟩]

set_option maxRecDepth 2000 in
theorem raw_importantWholes : Declaration.raw importantWholes = wholeDeclarations := by cbv

theorem parse_importantWholes : Declaration.parse importantWholes = wholeDeclarations := by
  have trimmed : wholeDeclarations.map (fun d => { d with value := trim d.value }) =
      wholeDeclarations := by decide +kernel
  rw [Declaration.parse_eq_map_raw, raw_importantWholes, trimmed]

theorem dropsFlags_importantWholes : DropsFlags importantWholes := by
  have table : ∀ d ∈ wholeDeclarations, trim d.value = d.value ∧ IsImportant d.value ∧
      (d.property ∈ wholeProperties ∨ d.property ∈ typographyWholes) := by decide +kernel
  refine dropsFlags_of_colorless ?_ fun r palette h m d hd => ?_
  · rw [parse_importantWholes]
    decide +kernel
  · have settled := Declaration.settled_of_mem_raw d hd
    rw [raw_importantWholes] at hd
    obtain ⟨trimmed, important, whole | typography⟩ := table d hd
    · exact ⟨important, .inl whole⟩
    · rw [← parse_importantWholes, ← m.converted] at hd
      exact ⟨important, .inr (not_isImportant_typography m h hd typography settled trimmed.symm)⟩

/-- A sheet with a flag after a font. -/
def importantFont : Text := "a\x7bfont:12px Inter !important\x7d".toList

theorem dropsFlags_importantFont : DropsFlags importantFont := by
  let ds : List Declaration := [⟨"a".toList, "font".toList, "12px Inter !important".toList⟩]
  have raw : Declaration.raw importantFont = ds := by cbv
  have parsed : Declaration.parse importantFont = ds := by cbv
  refine dropsFlags_of_colorless ?_ fun r palette h m d hd => ?_
  · rw [parsed]
    decide +kernel
  · have table (c : Category) : r.tokens.table c =
        TokenTables.nameCategory .default c ((Candidates.collect ds).table c) := parsed ▸ m.table c
    have value : r.typography "font".toList "12px Inter !important".toList =
        "var(--fs-1) var(--ff-1)".toList := by
      have families : ((Candidates.collect ds).table .fontFamilies).byLiteral =
          ["Inter !important".toList] := by
        rw [CandidateTable.byLiteral, CandidateTable.ordered, List.mergeSort_of_pairwise]
        · decide +kernel
        · decide +kernel
      have weights : ((Candidates.collect ds).table .fontWeights).byWeight = [] := by
        rw [CandidateTable.byWeight, CandidateTable.ordered, List.mergeSort_of_pairwise]
        · decide +kernel
        · decide +kernel
      rw [typography, TokenTables.typographyValue, if_neg (by decide), if_pos rfl,
        FontShorthand.substituteWith, FontShorthand.plainTemplates]
      simp only [table, TokenTables.nameCategory, Category.order, weights, families]
      decide +kernel
    rw [raw] at hd
    obtain rfl := List.mem_singleton.1 hd
    refine ⟨by decide +kernel, .inr ?_⟩
    rw [value]
    decide +kernel

/-- Each property whose flag may be lost loses it in a sheet. -/
theorem dropsFlags_all :
    (Declaration.parse importantWholes).map (·.property) = wholeProperties ++ typographyWholes ∧
      DropsFlags importantWholes ∧
        (Declaration.parse importantFont).map (·.property) = ["font".toList] ∧
          DropsFlags importantFont := by
  have wholes : (Declaration.parse importantWholes).map (·.property) =
      wholeProperties ++ typographyWholes := by
    rw [parse_importantWholes]
    rfl
  have font : (Declaration.parse importantFont).map (·.property) = ["font".toList] := by cbv
  exact ⟨wholes, dropsFlags_importantWholes, font, dropsFlags_importantFont⟩

end Tokenization

end DesignTokens
