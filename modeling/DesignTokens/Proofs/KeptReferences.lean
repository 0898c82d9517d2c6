import DesignTokens.Proofs.FontReferences
import DesignTokens.Proofs.SheetPasses
import DesignTokens.Proofs.TokenLiterals
import DesignTokens.Proofs.TokenNames
import DesignTokens.Tokenization

/-!
References that are inserted into a stylesheet stay what they are, but for one pass: the pass for
typography looks for weights as words, and a part of a name can be a word.
-/
namespace DesignTokens

open Text

namespace Tokenization

variable {t : Text} {r : Tokenization} (h : ofText .default t = .ok r)

/-- How the parts of a tokenization by default are made. -/
structure Made (t : Text) (r : Tokenization) (palette : Palette) : Prop where
  config : r.config = .default
  converted : r.converted = t
  colors : Palette.ofTable (Candidates.collect (Declaration.parse t)).colors = .ok palette
  tokens : r.tokens =
    .ofCandidates (.collect (Declaration.parse t)) (.ofPalette palette) .default
  document : TokenDocument.ofTokens .default r.tokens = .ok r.document

include h in
theorem exists_made : ∃ palette, Made t r palette := by
  obtain ⟨palette, hp, h⟩ := exists_of_bind_eq_ok h
  obtain ⟨document, hd, h⟩ := exists_of_bind_eq_ok h
  cases h
  exact ⟨palette, rfl, rfl, hp, rfl, hd⟩

namespace Made

variable {palette : Palette} (m : Made t r palette)
include m

theorem valid_rootNames : ∀ name ∈ r.document.rootNames, TokenName.Valid name := by
  have document := m.document
  rw [m.tokens] at document
  exact TokenDocument.valid_of_mem_rootNames document

theorem declared_color : ∀ e ∈ r.tokens.colors.entries, e.2 ∈ r.document.rootNames := by
  intro e he
  have document := m.document
  rw [m.tokens] at document he
  exact TokenDocument.mem_rootNames_of_color document he

theorem declared (c : Category) : ∀ e ∈ (r.tokens.table c).entries, e.2 ∈ r.document.rootNames := by
  intro e he
  have document := m.document
  rw [m.tokens] at document he
  exact TokenDocument.mem_rootNames_of_table document he

theorem valid (c : Category) : ∀ e ∈ (r.tokens.table c).entries, TokenName.Valid e.2 :=
  fun e he => m.valid_rootNames _ (m.declared c e he)

theorem table (c : Category) : r.tokens.table c = TokenTables.nameCategory .default c
    ((Candidates.collect (Declaration.parse t)).table c) := by
  rw [m.tokens, TokenTables.table_ofCandidates]

theorem mem_keys {c : Category} {e : Text × Text} (he : e ∈ (r.tokens.table c).entries) :
    e.1 ∈ ((Candidates.collect (Declaration.parse t)).table c).keys := by
  rw [m.table] at he
  exact TokenTables.mem_keys_of_mem_nameCategory he

theorem finds {c : Category} {e : Text × Text} (he : e ∈ (r.tokens.table c).entries) :
    ∃ d ∈ Declaration.parse t, Candidates.Finds d c e.1 :=
  (Candidates.within_collect _).tables c _ (m.mem_keys he)

theorem finds_color {e : Text × Text} (he : e ∈ r.tokens.colors.entries) :
    ∃ d ∈ Declaration.parse t, e.1 ∈ Color.literals d.value := by
  rw [m.tokens] at he
  exact (Candidates.within_collect _).colors _ (TokenTables.mem_keys_of_mem_colors m.colors he)

end Made

theorem plain_value (ht : ¬ opening <:+: t) : ∀ d ∈ Declaration.parse t, ¬ opening <:+: d.value := by
  intro d hd ho
  rw [Declaration.parse_eq_map_raw] at hd
  obtain ⟨d', hd', rfl⟩ := List.mem_map.1 hd
  have plain := @Sheet.intact_of_mem_raw [] (by simp) t (intact_nil_iff.2 ht) d' hd'
  exact intact_nil_iff.1 plain (ho.trans (trim_isInfix d'.value))

/-- What the pass for typography makes of a value. -/
def typography (r : Tokenization) : Text → Text → Text :=
  r.tokens.typographyValue (FontShorthand.plainTemplates r.tokens)

/-- The passes that a stylesheet is rewritten by. -/
def passes (r : Tokenization) : List Pass :=
  r.tokens.earlyPasses r.config.features ++
    .values r.typography :: r.tokens.latePasses r.config.features

theorem Made.substitute_eq {palette : Palette} (m : Made t r palette) :
    r.tokens.substitute r.config.features r.converted = .ok (Pass.runAll r.passes r.converted) := by
  have weights := FontShorthand.weightTemplates_eq_of_valid (m.valid .fontWeights)
  have enabled : r.config.features.contains .typography := by
    rw [m.config]
    rfl
  rw [TokenTables.substitute_eq_runAll weights, TokenTables.laterPasses, enabled]
  rfl

section Passes

variable {palette : Palette} (m : Made t r palette) (ht : ¬ opening <:+: t)
include m ht

theorem keeps_lone {c : Category} (hc : c ∈ [Category.spacing, .borderWidths, .durations, .easings])
    {v : Text} (hv : Intact r.document.rootNames v) :
    Keeps r.document.rootNames v ((r.tokens.table c).substituteLone .exact v) := by
  refine keeps_substituteLone m.valid_rootNames (fun e he => ?_) hv
  obtain ⟨d, hd, found⟩ := m.finds he
  have separate := found.separate (plain_value ht d hd) hc
  exact ⟨m.declared c e he, separate.ne_nil, separate.spares m.valid_rootNames⟩

theorem plain_of_mem {c : Category} (hc : c ∈ [Category.shadows, .radii, .fontFamilies]) :
    ∀ e ∈ (r.tokens.table c).entries, e.2 ∈ r.document.rootNames ∧ ¬ opening <:+: e.1 := by
  intro e he
  obtain ⟨d, hd, found⟩ := m.finds he
  exact ⟨m.declared c e he, found.plain (plain_value ht d hd) hc⟩

omit ht in
theorem keeps_onFamily {family : Text → Bool} {f : Text → Text}
    (hf : ∀ v, Intact r.document.rootNames v → Keeps r.document.rootNames v (f v)) {u : Text}
    (hu : Intact r.document.rootNames u) :
    (Pass.values (TokenTables.onFamily family f)).Keeps r.document.rootNames u := by
  refine Pass.keeps_values m.valid_rootNames (fun property value hv => ?_) hu
  rw [TokenTables.onFamily]
  split
  · exact hf value hv
  · exact Keeps.refl hv

/-- The passes before the one for typography keep the references of every intact sheet. -/
theorem earlyPasses_keep : ∀ p ∈ r.tokens.earlyPasses r.config.features, ∀ u,
    Intact r.document.rootNames u → p.Keeps r.document.rootNames u := by
  have hn := m.valid_rootNames
  intro p hp u hu
  simp only [TokenTables.earlyPasses, List.mem_append] at hp
  rcases hp with (shadow | radius) | color
  · rw [TokenTables.eq_of_mem_passesIf shadow]
    refine keeps_onFamily m (fun v hv => ?_) hu
    exact keeps_replaceWhole hn (plain_of_mem m ht (by simp)) (fun v => (opening_normal_iff v).1.2) hv
  · rw [TokenTables.eq_of_mem_passesIf radius]
    refine keeps_onFamily m (fun v hv => ?_) hu
    exact keeps_replaceWhole hn (plain_of_mem m ht (by simp))
      (fun v => (opening_normal_iff v).2.1.2) hv
  · rw [TokenTables.eq_of_mem_passesIf color]
    refine keeps_substituteAll hn (fun e he => ?_) hu
    obtain ⟨d, hd, found⟩ := m.finds_color he
    exact ⟨m.declared_color e he, apart_of_color found⟩

/-- The passes after the one for typography keep the references of every intact sheet. -/
theorem latePasses_keep : ∀ p ∈ r.tokens.latePasses r.config.features, ∀ u,
    Intact r.document.rootNames u → p.Keeps r.document.rootNames u := by
  intro p hp u hu
  simp only [TokenTables.latePasses, List.mem_append] at hp
  rcases hp with (spacing | border) | motion
  · rw [TokenTables.eq_of_mem_passesIf spacing]
    exact keeps_onFamily m (fun v hv => keeps_lone m ht (by simp) hv) hu
  · rw [TokenTables.eq_of_mem_passesIf border]
    exact keeps_onFamily m (fun v hv => keeps_lone m ht (by simp) hv) hu
  · rw [TokenTables.eq_of_mem_passesIf motion]
    refine keeps_onFamily m (fun v hv => ?_) hu
    have timed := @keeps_lone _ _ _ m ht .durations (by simp) v hv
    exact timed.trans (keeps_lone m ht (by simp) timed.intact)

end Passes

/-- The properties of typography whose values are looked through for literals. -/
def exposed : List Text := "font".toList :: Candidates.wholeValues.map Prod.fst

theorem typographyValue_of_notMem {tokens : TokenTables} {weights : List (Text × Template)}
    {property : Text} (hp : property ∉ exposed) (hf : property ≠ "font-family".toList)
    (v : Text) : tokens.typographyValue weights property v = v := by
  rw [exposed, List.mem_cons, not_or] at hp
  have none : Candidates.wholeValues.lookup property = none := by
    rw [List.lookup_eq_none_iff]
    intro entry hmem
    have other : property ≠ entry.1 := by
      rintro rfl
      exact hp.2 (List.mem_map_of_mem hmem)
    simpa using other
  rw [TokenTables.typographyValue, if_neg hf, if_neg hp.1, none]

section Passes

variable {palette : Palette} (m : Made t r palette) (ht : ¬ opening <:+: t)
include m ht

theorem keeps_fontFamily {v : Text} (hv : Intact r.document.rootNames v) :
    Keeps r.document.rootNames v
      (r.typography "font-family".toList v) := by
  rw [typography, TokenTables.typographyValue, if_pos rfl]
  exact keeps_replaceWhole m.valid_rootNames (plain_of_mem m ht (by simp))
    (fun v => (opening_normal_iff v).2.2.2) hv

/-- Where typography is ordinary, only weights in a `font` value are found in references. -/
theorem keeps_typography_of_ordinary (ordinary : r.tokens.Ordinary) {property : Text}
    (hp : property ≠ "font".toList) {v : Text} (hv : Intact r.document.rootNames v) :
    Keeps r.document.rootNames v (r.typography property v) := by
  have hn := m.valid_rootNames
  by_cases hf : property = "font-family".toList
  · rw [hf]
    exact keeps_fontFamily m ht hv
  · rw [typography, TokenTables.typographyValue, if_neg hf, if_neg hp]
    split
    · rename_i c hc
      have entry : (property, c) ∈ Candidates.wholeValues := mem_of_lookup_eq_some hc
      have four : c ∈ [Category.fontSizes, .lineHeights, .fontWeights, .letterSpacings] :=
        List.mem_map_of_mem (f := Prod.snd) entry
      refine keeps_substituteLone hn (fun e he => ?_) hv
      have literal := ordinary.literals c four e he
      exact ⟨m.declared c e he, literal.ne_nil, literal.spares hn⟩
    · exact Keeps.refl hv

omit ht in
theorem keeps_font_iff (ordinary : r.tokens.Ordinary) {v : Text}
    (hv : Intact r.document.rootNames v) :
    Keeps r.document.rootNames v (r.typography "font".toList v) ↔
      ¬ FontShorthand.Found r.document.rootNames (r.tokens.table .fontWeights).entries v := by
  rw [typography, TokenTables.typographyValue, if_neg (by decide), if_pos rfl]
  exact FontShorthand.keeps_substituteWith_iff ordinary m.valid_rootNames m.declared hv

/-- The pass for typography keeps all references if it keeps those of the values that it looks
through. -/
theorem typography_keeps {u : Text} (hu : Intact r.document.rootNames u)
    (h : ∀ d ∈ Declaration.raw u, d.property ∈ exposed →
      Keeps r.document.rootNames d.value (r.typography d.property d.value)) :
    (Pass.values r.typography).Keeps r.document.rootNames u := by
  intro d hd
  have value := Sheet.intact_of_mem_raw m.valid_rootNames hu d hd
  by_cases hp : d.property ∈ exposed
  · exact h d hd hp
  · by_cases hf : d.property = "font-family".toList
    · rw [hf]
      exact keeps_fontFamily m ht value
    · rw [typography, typographyValue_of_notMem hp hf]
      exact Keeps.refl value

end Passes

include h in
/-- A sheet without openings is rewritten by the passes. They keep all references, and leave no
opening without a declared name, if and only if the pass for typography keeps the references of the
values that it looks through; with ordinary typography, if and only if no weight is found inside of
a reference in a `font` value. -/
theorem references_kept_iff (ht : ¬ opening <:+: t) :
    let names := r.document.rootNames
    let colored := Pass.runAll (r.tokens.earlyPasses r.config.features) r.converted
    let out := Pass.runAll r.passes r.converted
    r.tokens.substitute r.config.features r.converted = .ok out ∧
      (Pass.AllKeep names r.passes r.converted ∧ Intact names out ↔
        ∀ d ∈ Declaration.raw colored, d.property ∈ exposed →
          Keeps names d.value (r.typography d.property d.value)) ∧
      (r.tokens.Ordinary → (Pass.AllKeep names r.passes r.converted ∧ Intact names out ↔
        ∀ d ∈ Declaration.raw colored, d.property = "font".toList →
          ¬ FontShorthand.Found names (r.tokens.table .fontWeights).entries d.value)) := by
  obtain ⟨palette, m⟩ := exists_made h
  have hn := m.valid_rootNames
  intro names colored out
  have plain : Intact names r.converted := by
    rw [Intact, references_eq_nil_iff.2 (m.converted ▸ ht)]
    exact List.not_mem_nil
  have early := Pass.allKeep_of_forall hn (earlyPasses_keep m ht) plain
  have entering : Intact names colored := (early.runAll hn plain).intact
  have value : ∀ d ∈ Declaration.raw colored, Intact names d.value :=
    Sheet.intact_of_mem_raw hn entering
  have kept_iff : Pass.AllKeep names r.passes r.converted ∧ Intact names out ↔
      ∀ d ∈ Declaration.raw colored, d.property ∈ exposed →
        Keeps names d.value (r.typography d.property d.value) := by
    constructor
    · rintro ⟨all, -⟩ d hd -
      rw [passes, Pass.allKeep_append] at all
      exact all.2.1 d hd
    · intro exposed_keep
      have typography := typography_keeps m ht entering exposed_keep
      have leaving := typography.run hn entering
      have late := Pass.allKeep_of_forall hn (latePasses_keep m ht) leaving.intact
      have all : Pass.AllKeep names r.passes r.converted :=
        Pass.allKeep_append.2 ⟨early, typography, late⟩
      exact ⟨all, (all.runAll hn plain).intact⟩
  refine ⟨m.substitute_eq, kept_iff, fun ordinary => kept_iff.trans ?_⟩
  constructor
  · intro kept d hd hp
    rw [← keeps_font_iff m ordinary (value d hd), ← hp]
    exact kept d hd (by simp [hp, exposed])
  · intro unfound d hd _
    by_cases hp : d.property = "font".toList
    · rw [hp, keeps_font_iff m ordinary (value d hd)]
      exact unfound d hd hp
    · exact keeps_typography_of_ordinary m ht ordinary hp (value d hd)

theorem exists_of_colorless (h : (Candidates.collect (Declaration.parse t)).colors = .empty) :
    ∃ r, ofText .default t = .ok r := by
  have palette : Palette.ofTable (Candidates.collect (Declaration.parse t)).colors = .ok [] := by
    rw [h]
    rfl
  have colorless := @TokenTables.isEmpty_colors _ .default _ h palette
  have document : ∃ d, TokenDocument.ofTokens .default (.ofCandidates
      (.collect (Declaration.parse t)) (.ofPalette []) .default) = .ok d := by
    rw [TokenDocument.ofTokens, TokenDocument.colorSections, colorless]
    exact ⟨_, rfl⟩
  obtain ⟨d, hd⟩ := document
  exact ⟨_, bind_eq_ok palette (bind_eq_ok hd rfl)⟩

/-- A sheet with a size, a line height and a family. -/
def plainShorthand : Text := "a\x7bfont:12px/1.5 Inter;margin:4px\x7d".toList

theorem intact_plainShorthand : ∃ r, ofText .default plainShorthand = .ok r ∧
    ¬ opening <:+: plainShorthand ∧ r.tokens.Ordinary ∧
      Intact r.document.rootNames (Pass.runAll r.passes r.converted) := by
  have plain : ¬ opening <:+: plainShorthand := by decide +kernel
  let ds : List Declaration := [⟨"a".toList, "font".toList, "12px/1.5 Inter".toList⟩,
    ⟨"a".toList, "margin".toList, "4px".toList⟩]
  have parsed : Declaration.parse plainShorthand = ds := by cbv
  have colorless : (Candidates.collect (Declaration.parse plainShorthand)).colors = .empty := by
    rw [parsed]
    rfl
  obtain ⟨r, h⟩ := exists_of_colorless colorless
  obtain ⟨palette, m⟩ := exists_made h
  have keys {c : Category} {e : Text × Text} (he : e ∈ (r.tokens.table c).entries) :
      e.1 ∈ ((Candidates.collect ds).table c).keys := parsed ▸ m.mem_keys he
  have weightless : (r.tokens.table .fontWeights).entries = [] := by
    have none : ((Candidates.collect ds).table .fontWeights).keys = [] := by decide +kernel
    rw [List.eq_nil_iff_forall_not_mem]
    intro e he
    exact absurd (keys he) (by simp [none])
  have ordinary : r.tokens.Ordinary := by
    have literals : ∀ c ∈ [Category.fontSizes, .lineHeights, .fontWeights, .letterSpacings],
        ∀ l ∈ ((Candidates.collect ds).table c).keys, l ≠ [] ∧
          ¬ containsNoCase ['v', 'a', 'r'] l ∧ ¬ isPrefixNoCase ['-', '-'] l := by
      decide +kernel
    have families : ∀ l ∈ ((Candidates.collect ds).table .fontFamilies).keys, ')' ∉ l := by
      decide +kernel
    constructor
    · intro c hc e he
      obtain ⟨ne_nil, unopened, undashed⟩ := literals c hc _ (keys he)
      exact ⟨ne_nil, unopened, undashed⟩
    · simp [weightless]
    · exact fun e he => families _ (keys he)
  have unfound (v : Text) : ¬ FontShorthand.Found r.document.rootNames
      (r.tokens.table .fontWeights).entries v := by
    rintro ⟨done, e, later, he, -⟩
    simp [weightless] at he
  have kept := ((references_kept_iff h plain).2.2 ordinary).2 fun d _ _ => unfound d.value
  exact ⟨r, h, plain, ordinary, kept.2⟩

/-- A sheet with a weight that is a part of the name for another one. -/
def nestedWeights : Text := "a\x7bfont:700 12px Inter\x7db\x7bfont-weight:1\x7d".toList

theorem mapValues_nestedWeights (f : Text → Text → Text) :
    Sheet.mapValues (fun _ => f) nestedWeights =
      "a\x7bfont: ".toList ++ f "font".toList "700 12px Inter".toList ++
        ("\x7db\x7bfont-weight: ".toList ++ f "font-weight".toList "1".toList ++
          "\x7d".toList) := by
  have sheet : Sheet.read nestedWeights = ⟨[([], ⟨"a".toList, "font:700 12px Inter".toList⟩),
    ([], ⟨"b".toList, "font-weight:1".toList⟩)], []⟩ := by cbv
  have first : Block.read "font:700 12px Inter".toList =
    ⟨[⟨[], "font".toList, "700 12px Inter".toList, false⟩], []⟩ := by cbv
  have second : Block.read "font-weight:1".toList =
    ⟨[⟨[], "font-weight".toList, "1".toList, false⟩], []⟩ := by cbv
  rw [Sheet.mapValues, sheet]
  simp only [Sheet.mapBodies, List.map_cons, List.map_nil, first, second]
  simp [Sheet.text, Sheet.rulesText, Rule.text, Block.textWith, Entry.textWith]
  rfl

/-- The second weight is found in the reference of the first one. -/
theorem not_intact_nestedWeights : ∃ r out, ofText .default nestedWeights = .ok r ∧
    ¬ opening <:+: nestedWeights ∧
      r.tokens.substitute r.config.features r.converted = .ok out ∧
        ¬ Intact r.document.rootNames out := by
  have plain : ¬ opening <:+: nestedWeights := by decide +kernel
  let ds : List Declaration := [⟨"a".toList, "font".toList, "700 12px Inter".toList⟩,
    ⟨"b".toList, "font-weight".toList, "1".toList⟩]
  have parsed : Declaration.parse nestedWeights = ds := by cbv
  have none : (Candidates.collect (Declaration.parse nestedWeights)).colors = .empty := by
    rw [parsed]
    rfl
  obtain ⟨r, h⟩ := exists_of_colorless none
  obtain ⟨palette, m⟩ := exists_made h
  have hn := m.valid_rootNames
  have table (c : Category) : r.tokens.table c =
      TokenTables.nameCategory .default c ((Candidates.collect ds).table c) := parsed ▸ m.table c
  have value : r.typography "font".toList "700 12px Inter".toList =
      "var(--fw-var(--fw-2)) var(--fs-1) var(--ff-1)".toList := by
    have weights : ((Candidates.collect ds).table .fontWeights).byWeight =
        ["700".toList, "1".toList] := by
      rw [CandidateTable.byWeight, CandidateTable.ordered, List.mergeSort_of_pairwise]
      · decide +kernel
      · decide +kernel
    have families : ((Candidates.collect ds).table .fontFamilies).byLiteral =
        ["Inter".toList] := by
      rw [CandidateTable.byLiteral, CandidateTable.ordered, List.mergeSort_of_pairwise]
      · decide +kernel
      · decide +kernel
    rw [typography, TokenTables.typographyValue, if_neg (by decide), if_pos rfl,
      FontShorthand.substituteWith, FontShorthand.plainTemplates]
    simp only [table, TokenTables.nameCategory, Category.order, weights, families]
    decide +kernel
  have passes : r.passes = [.values r.typography] := by
    have empty : ∀ c ∈ [Category.shadows, .radii, .spacing, .borderWidths, .durations, .easings],
        (r.tokens.table c).isEmpty := by
      have none : ∀ c ∈ [Category.shadows, .radii, .spacing, .borderWidths, .durations, .easings],
          ((Candidates.collect ds).table c).keys = [] := by decide +kernel
      intro c hc
      rw [table]
      exact TokenTables.isEmpty_nameCategory (none c hc)
    have colorless : r.tokens.colors.isEmpty := by
      rw [m.tokens]
      exact TokenTables.isEmpty_colors none m.colors
    simp [Tokenization.passes, TokenTables.earlyPasses, TokenTables.latePasses,
      TokenTables.enables, TokenTables.passesIf, empty, colorless]
  refine ⟨r, _, h, plain, m.substitute_eq, ?_⟩
  rw [passes, m.converted]
  change ¬ Intact r.document.rootNames (Sheet.mapValues (fun _ => r.typography) nestedWeights)
  rw [mapValues_nestedWeights, value]
  have broken : Broken ("var(--fw-var(--fw-2)) var(--fs-1) var(--ff-1)".toList) :=
    ⟨"--fw-".toList, "--fw-2".toList, List.all_eq_true.1 (by decide), List.all_eq_true.1 (by decide),
      [], ") var(--fs-1) var(--ff-1)".toList, rfl⟩
  refine (broken.mono ?_).not_intact hn
  exact ⟨"a\x7bfont: ".toList, _, rfl⟩

end Tokenization

end DesignTokens
