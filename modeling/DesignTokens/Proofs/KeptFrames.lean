import DesignTokens.Proofs.ConfinedColors
import DesignTokens.Proofs.KeptReferences
import DesignTokens.Proofs.PassedValues
import DesignTokens.Proofs.TokenizationFaults
import Mathlib

/-!
Selectors and properties of a stylesheet that is rewritten. Every pass over values keeps them. The
pass for colors goes over the whole text, so it keeps them where colors stand in values only; a
selector that is written like a color becomes a reference.
-/
namespace DesignTokens

open Text

namespace Tokenization

variable {t : Text} {r : Tokenization}

/-- The stylesheet before the pass for colors. -/
def uncolored (r : Tokenization) : Text :=
  Pass.runAll (r.tokens.wholePasses r.config.features) r.converted

/-- The stylesheet after the pass for colors. -/
def colored (r : Tokenization) : Text :=
  Pass.runAll (r.tokens.earlyPasses r.config.features) r.converted

namespace Made

variable {palette : Palette} (m : Made t r palette)
include m

theorem colored_eq : r.colored = r.tokens.colors.substituteAll r.uncolored := by
  have enabled : r.config.features.contains .colors := by
    rw [m.config]
    rfl
  have early : r.colored =
      TokenTables.passIf (!r.tokens.colors.isEmpty) r.tokens.colors.substituteAll r.uncolored := by
    rw [colored, TokenTables.earlyPasses, Pass.runAll_append, TokenTables.runAll_passesIf, enabled]
    rfl
  rw [early, TokenTables.passIf]
  split
  · rfl
  · rename_i none
    have entries : r.tokens.colors.entries = [] := by simpa [OrderedMap.isEmpty] using none
    rw [TokenMap.substituteAll, TokenMap.byLength, entries, List.mergeSort_nil]
    rfl

theorem colored_of_colorless (h : r.tokens.colors.entries = []) : r.colored = r.uncolored := by
  rw [m.colored_eq, TokenMap.substituteAll, TokenMap.byLength, h, List.mergeSort_nil]
  rfl

theorem colored_of_single {literal name : Text}
    (h : r.tokens.colors.entries = [(literal, name)]) :
    r.colored = replaceAll literal (reference name) r.uncolored := by
  rw [m.colored_eq, TokenMap.substituteAll, TokenMap.byLength, h, List.mergeSort_singleton]
  rfl

theorem replaceable_color : ∀ e ∈ r.tokens.colors.entries,
    Layout.Replaceable e.1 ∧ TokenName.Valid e.2 := by
  intro e he
  obtain ⟨d, hd, found⟩ := m.finds_color he
  obtain ⟨apart, starts⟩ := apart_of_color found
  refine ⟨⟨starts.ne_nil, apart, ?_⟩, m.valid_rootNames _ (m.declared_color e he)⟩
  rw [Declaration.parse_eq_map_raw] at hd
  obtain ⟨raw, hraw, rfl⟩ := List.mem_map.1 hd
  have inside := (infix_of_mem_tokens found).trans (trim_isInfix raw.value)
  have fits := (Declaration.infix_of_mem_raw hraw).2
  exact ⟨fun hc => fits.entry_open (inside.subset hc), fun hc => fits.rule_open (inside.subset hc)⟩

/-- The only color of a sheet is the foreground. -/
theorem colors_single {literal : Text} (hne : literal ≠ [])
    (h : (Candidates.collect (Declaration.parse t)).colors.keys = [literal]) :
    r.tokens.colors.entries = [(literal, "--color-fg".toList)] := by
  have literals := Palette.literals_ofTable m.colors
  rw [h] at literals
  obtain ⟨c, rfl, rfl⟩ := List.map_eq_singleton_iff.1 literals
  rw [m.tokens, TokenTables.colors, TokenTables.ofCandidates, RoleAssignment.ofPalette_single hne]
  rfl

/-- Without shadows and radii the pass for colors gets the sheet as it is. -/
theorem uncolored_eq (h : ∀ c ∈ [Category.shadows, .radii],
    ((Candidates.collect (Declaration.parse t)).table c).keys = []) : r.uncolored = t := by
  have empty : ∀ c ∈ [Category.shadows, .radii], (r.tokens.table c).isEmpty := fun c hc => by
    rw [m.table]
    exact TokenTables.isEmpty_nameCategory (h c hc)
  rw [uncolored, m.converted]
  simp [TokenTables.wholePasses, TokenTables.enables, TokenTables.passesIf, empty, Pass.runAll]

theorem fits_rootNames : ∀ name ∈ r.document.rootNames, Value.Fits (reference name) :=
  fits_reference m.valid_rootNames

theorem inserts_wholePasses :
    ∀ p ∈ r.tokens.wholePasses r.config.features, p.Inserts r.document.rootNames :=
  TokenTables.inserts_wholePasses m.declared _

/-- The passes after the one for colors. -/
theorem inserts_laterPasses : ∀ p ∈ .values r.typography :: r.tokens.latePasses r.config.features,
    p.Inserts r.document.rootNames := by
  have all := TokenTables.inserts_laterPasses m.declared r.config.features
  have enabled : r.config.features.contains .typography := by
    rw [m.config]
    rfl
  rwa [TokenTables.laterPasses, enabled] at all

theorem sameFrame_uncolored : SameFrame r.uncolored r.converted :=
  Pass.sameFrame_runAll m.fits_rootNames m.inserts_wholePasses _

theorem sameFrame_passes : SameFrame (Pass.runAll r.passes r.converted) r.colored := by
  rw [passes, Pass.runAll_append]
  exact Pass.sameFrame_runAll m.fits_rootNames m.inserts_laterPasses _

theorem sameFrame_colored {l : Layout} (hl : Sheet.Lays r.uncolored l)
    (hc : ∀ e ∈ r.tokens.colors.entries, l.Confines e.1) : SameFrame r.colored r.uncolored := by
  obtain ⟨admits, text⟩ := hl.substituteAll_text m.replaceable_color hc
  rw [m.colored_eq, text]
  exact .ofLayout hl admits

end Made

/-- A stylesheet is rewritten by default to a sheet with the selectors and properties that the pass
for colors leaves, and this pass gets those of the sheet. They are the same where no color with a
token starts outside of the values. -/
theorem sameFrame_substitute (h : ofText .default t = .ok r) :
    ∃ out, r.tokens.substitute r.config.features r.converted = .ok out ∧
      SameFrame r.uncolored r.converted ∧ SameFrame out r.colored ∧
        (∃ l, Sheet.Lays r.uncolored l) ∧
          ∀ l, Sheet.Lays r.uncolored l → (∀ e ∈ r.tokens.colors.entries, l.Confines e.1) →
            SameFrame out r.converted := by
  obtain ⟨palette, m⟩ := exists_made h
  have before := m.sameFrame_uncolored
  have after := m.sameFrame_passes
  refine ⟨_, m.substitute_eq, before, after, Sheet.exists_lays _, fun l hl hc => ?_⟩
  exact (after.trans (m.sameFrame_colored hl hc)).trans before

/-- A sheet with one color is tokenized, and the color is the foreground. -/
theorem exists_ofText_oneColor
    (h : ∀ d ∈ Declaration.parse t, Color.literals d.value ⊆ ["#abc".toList])
    (hc : (Candidates.collect (Declaration.parse t)).colors.keys = ["#abc".toList])
    (hw : ∀ c ∈ [Category.shadows, .radii],
      ((Candidates.collect (Declaration.parse t)).table c).keys = []) :
    ∃ r palette, ofText .default t = .ok r ∧ Made t r palette ∧
      r.tokens.colors.entries = [("#abc".toList, "--color-fg".toList)] ∧ r.uncolored = t := by
  have literals : ∀ d ∈ Declaration.parse t, ∀ literal ∈ Color.literals d.value,
      ¬ Color.Overflows literal := by
    rintro d hd literal hl ⟨rgb, -⟩
    obtain rfl := List.mem_singleton.1 (h d hd hl)
    exact absurd rgb (by decide +kernel)
  obtain ⟨palette, hp⟩ := (Palette.isOk_ofTable_iff _).2 literals
  have lines := @TokenDocument.isOk_ofTokens_iff_of_palette (Declaration.parse t) .default _ hp
  obtain ⟨document, hd⟩ := lines.2 fun _ prefers => nomatch prefers
  have made : ofText .default t = .ok _ := bind_eq_ok hp (bind_eq_ok hd rfl)
  obtain ⟨palette, m⟩ := exists_made made
  exact ⟨_, palette, made, m, m.colors_single (by simp) hc, m.uncolored_eq hw⟩

theorem exists_ofText_single {selector property : Text}
    (hp : property ∈ ["color".toList, "--x".toList, "--color-fg".toList])
    (h : Declaration.parse t = [⟨selector, property, "#abc".toList⟩]) :
    ∃ r palette, ofText .default t = .ok r ∧ Made t r palette ∧
      r.tokens.colors.entries = [("#abc".toList, "--color-fg".toList)] ∧ r.uncolored = t := by
  have only : Color.literals "#abc".toList ⊆ ["#abc".toList] := by decide +kernel
  apply exists_ofText_oneColor <;> rw [h]
  · exact List.forall_mem_singleton.2 only
  · simp only [List.mem_cons, List.not_mem_nil, or_false] at hp
    rcases hp with rfl | rfl | rfl <;> rfl
  · simp only [List.forall_mem_cons, List.not_mem_nil, false_implies, implies_true, and_true]
    simp only [List.mem_cons, List.not_mem_nil, or_false] at hp
    rcases hp with rfl | rfl | rfl <;> exact ⟨rfl, rfl⟩

/-- A color is confined to the one value of a sheet. -/
theorem exists_confined_single {selector property : Text} (hs : Sheet.IsPrelude selector)
    (hn : Block.IsName property) (hsharp : '#' ∉ selector ++ property)
    (text : t = selector ++ '\x7b' :: property ++ ":#abc\x7d".toList) :
    ∃ l, Sheet.Lays t l ∧ l.Confines "#abc".toList := by
  have body := @Block.Lays.last (trim selector) [] property [] "#abc".toList (by simp) hn (by simp)
    (by simp) (by simp)
  have plain : '\x7d' ∉ property ++ ":#abc".toList := by
    intro hc
    rcases List.mem_append.1 hc with name | value
    · exact absurd (hn.chars _ name) (by decide)
    · exact absurd value (by decide)
  have rest : Sheet.Lays [] (.tail []) :=
    .ruleless (@Sheet.Ruleless.plain [] [] (by simp) (by simp))
  have rule := @Sheet.Lays.rule [] selector _ [] _ _ (by simp) hs plain body rest
  refine ⟨.slot (selector ++ '\x7b' :: property ++ [':'])
    ⟨trim selector, lower property, "#abc".toList⟩ (.tail ['\x7d']), ?_, ?_, ?_⟩
  · simpa [text, Layout.after, Layout.append] using rule
  · intro a q front hq start
    obtain ⟨c, q, rfl⟩ := List.exists_cons_of_ne_nil hq
    obtain rfl : '#' = c := ((@List.cons_prefix_cons _ '#' "abc".toList c _).1 start).1
    have inside : '#' ∈ selector ++ '\x7b' :: property ++ [':'] := by
      rw [front]
      exact List.mem_append_right a List.mem_cons_self
    simp only [List.mem_append, List.mem_cons, List.not_mem_nil, or_false, not_or] at inside hsharp
    rcases inside with (selector | brace | name) | colon
    · exact hsharp.1 selector
    · exact absurd brace (by decide)
    · exact hsharp.2 name
    · exact absurd colon (by decide)
  · exact fun inside => absurd inside (by decide)

/-- A sheet with a color as a value. -/
def colorValue : Text := "a\x7bcolor:#abc\x7d".toList

theorem sameFrame_substitute_colorValue : ∃ r out l, ofText .default colorValue = .ok r ∧
    r.tokens.substitute r.config.features r.converted = .ok out ∧ Sheet.Lays r.uncolored l ∧
      (∀ e ∈ r.tokens.colors.entries, l.Confines e.1) ∧ SameFrame out r.converted := by
  have parsed : Declaration.parse colorValue =
    [⟨"a".toList, "color".toList, "#abc".toList⟩] := by cbv
  obtain ⟨r, palette, h, m, colors, uncolored⟩ := exists_ofText_single (by simp) parsed
  obtain ⟨l, laid, confined⟩ := @exists_confined_single colorValue "a".toList "color".toList
    ⟨by simp, by simp [Sheet.isBrace]⟩ ⟨by simp, List.all_eq_true.1 (by decide)⟩ (by decide) rfl
  have all : ∀ e ∈ r.tokens.colors.entries, l.Confines e.1 := by
    rw [colors]
    exact List.forall_mem_singleton.2 confined
  obtain ⟨out, substituted, -, -, -, kept⟩ := sameFrame_substitute h
  rw [← uncolored] at laid
  exact ⟨r, out, l, h, substituted, laid, all, kept l laid all⟩

/-- A sheet with a selector that is written like its color. -/
def colorSelector : Text := "#abc\x7bcolor:#abc\x7d".toList

theorem substitute_colorSelector : ∃ r out, ofText .default colorSelector = .ok r ∧
    r.tokens.substitute r.config.features r.converted = .ok out ∧
      (Declaration.parse r.converted).map (fun d => (d.selector, d.property)) =
        [("#abc".toList, "color".toList)] ∧
      (Declaration.parse out).map (fun d => (d.selector, d.property)) =
        [("var(--color-fg)".toList, "color".toList)] := by
  have parsed : Declaration.parse colorSelector =
    [⟨"#abc".toList, "color".toList, "#abc".toList⟩] := by cbv
  obtain ⟨r, palette, h, m, colors, uncolored⟩ := exists_ofText_single (by simp) parsed
  have colored : r.colored = "var(--color-fg)\x7bcolor:var(--color-fg)\x7d".toList := by
    rw [m.colored_of_single colors, uncolored]
    decide +kernel
  have after : Declaration.parse r.colored =
      [⟨"var(--color-fg)".toList, "color".toList, "var(--color-fg)".toList⟩] := by
    rw [colored]
    cbv
  refine ⟨r, _, h, m.substitute_eq, ?_, ?_⟩
  · rw [m.converted, parsed]
    rfl
  · rw [m.sameFrame_passes.declared, after]
    rfl

end Tokenization

end DesignTokens
