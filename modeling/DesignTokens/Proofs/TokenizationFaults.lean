import DesignTokens.Proofs.LiteralColors
import DesignTokens.Proofs.TokenLiterals
import DesignTokens.Proofs.TokenNames
import DesignTokens.Tokenization

/-!
When a stylesheet can be tokenized. Of all the arithmetic on its literals only two steps have no
result for some of them: a percentage of a color channel that is scaled beyond all numbers, and the
division of a spacing by a root font size of zero.
-/
namespace DesignTokens

open Number

theorem PaletteColor.isOk_ofCandidate_iff {v literal : Text} (hl : literal ∈ Color.literals v)
    (c : ColorCandidate) :
    (∃ color, ofCandidate literal c = .ok color) ↔ ¬ Color.Overflows literal := by
  rw [← Rgba.isOk_ofLiteral_iff]
  constructor
  · intro ⟨color, h⟩
    obtain ⟨rgba, hr, -⟩ := exists_of_bind_eq_ok h
    exact ⟨rgba, hr⟩
  · intro ⟨rgba, hr⟩
    obtain ⟨hsl, hh⟩ := Hsl.exists_ofRgba (Rgba.inRange_of_mem hl hr)
    exact ⟨_, bind_eq_ok hr (bind_eq_ok hh rfl)⟩

theorem Palette.isOk_ofTable_iff (declarations : List Declaration) :
    (∃ palette, ofTable (Candidates.collect declarations).colors = .ok palette) ↔
      ∀ d ∈ declarations, ∀ literal ∈ Color.literals d.value, ¬ Color.Overflows literal := by
  rw [ofTable, isOk_mapM_iff]
  constructor
  · intro h d hd literal hl
    obtain ⟨e, he, rfl⟩ := List.mem_map.1 (Candidates.mem_colors_collect_iff.2 ⟨d, hd, hl⟩)
    exact (PaletteColor.isOk_ofCandidate_iff hl e.2).1 (h e he)
  · intro h e he
    obtain ⟨d, hd, hl⟩ := Candidates.mem_colors_collect_iff.1 (List.mem_map_of_mem he)
    exact (PaletteColor.isOk_ofCandidate_iff hl e.2).2 (h d hd e.1 hl)

/-- A multiple of four pixels where the root font size is zero: it is no number of such sizes. -/
def Length.IsRefused (b : LengthBases) (literal : Text) : Prop :=
  b.root == 0.0 ∧ ∃ n unit rest, scan? [.px] .exact literal = some (n, unit, rest) ∧
    Text.atEnd rest ∧ modulo n.toFloat 4 == 0.0

theorem Length.isOk_inRootSizes_iff {b : LengthBases} {literal : Text} :
    (∃ t, inRootSizes b literal = .ok t) ↔ ¬ IsRefused b literal := by
  unfold inRootSizes IsRefused
  split
  · rename_i n unit rest hs
    split_ifs with multiple
    · rw [LengthBases.fromPixels, divide]
      simp only [Bool.and_eq_true] at multiple
      split_ifs with zero
      · simp [Except.map, zero, hs, multiple]
      · simp [Except.map, zero]
    · refine iff_of_true ⟨literal, rfl⟩ fun refused => multiple ?_
      obtain ⟨-, n', unit', rest', hs', last, multiple⟩ := refused
      rw [hs] at hs'
      cases hs'
      simp [last, multiple]
  · rename_i none
    refine iff_of_true ⟨literal, rfl⟩ fun refused => ?_
    obtain ⟨-, n', unit', rest', hs', -⟩ := refused
    rw [none] at hs'
    cases hs'

namespace TokenDocument

theorem isOk_colorLines {v literal name : Text} (hl : literal ∈ Color.literals v)
    (h : ¬ Color.Overflows literal) (algorithm : DarkMethod) :
    ∃ lines, colorLines algorithm (literal, name) = .ok lines := by
  obtain ⟨color, hc⟩ := Rgba.isOk_ofLiteral_iff.2 h
  obtain ⟨dark, hd⟩ := Rgba.exists_dark (Rgba.inRange_of_mem hl hc) algorithm
  exact ⟨_, bind_eq_ok hc (bind_eq_ok hd rfl)⟩

theorem isOk_spacingValues_iff {config : Config} {tokens : TokenTables} :
    (∃ lines, spacingValues config tokens = .ok lines) ↔
      (config.prefersRootSizes →
        ∀ literal ∈ (tokens.table .spacing).keys, ¬ Length.IsRefused config.bases literal) := by
  have line (e : Text × Text) : (∃ line, (do
      return DocumentLine.declaration e.2 (← Length.inRootSizes config.bases e.1)) = .ok line) ↔
        ¬ Length.IsRefused config.bases e.1 := by
    rw [← Length.isOk_inRootSizes_iff]
    constructor
    · intro ⟨line, h⟩
      obtain ⟨t, ht, -⟩ := exists_of_bind_eq_ok h
      exact ⟨t, ht⟩
    · intro ⟨t, ht⟩
      exact ⟨_, bind_eq_ok ht rfl⟩
  unfold spacingValues
  split_ifs with preferred
  · constructor
    · intro ⟨lines, h⟩ _ literal hl
      obtain ⟨results, hr, -⟩ := exists_of_bind_eq_ok h
      obtain ⟨e, he, rfl⟩ := List.mem_map.1 hl
      exact (line e).1 (isOk_mapM_iff.1 ⟨results, hr⟩ e he)
    · intro h
      obtain ⟨results, hr⟩ := isOk_mapM_iff.2 fun e he =>
        (line e).2 (h preferred e.1 (List.mem_map_of_mem he))
      exact ⟨_, bind_eq_ok hr rfl⟩
  · exact iff_of_true ⟨_, rfl⟩ fun prefers => absurd prefers preferred

theorem isOk_colorSections {config : Config} {tokens : TokenTables}
    (h : ∀ e ∈ tokens.colors.entries, ∃ lines, colorLines config.algorithm e = .ok lines) :
    ∃ sections, colorSections config tokens = .ok sections := by
  obtain ⟨lines, hl⟩ := isOk_mapM_iff.2 h
  unfold colorSections
  split_ifs
  · exact ⟨_, bind_eq_ok hl rfl⟩
  · exact ⟨_, rfl⟩

theorem isOk_ofTokens_iff {config : Config} {tokens : TokenTables}
    (h : ∃ sections, colorSections config tokens = .ok sections) :
    (∃ document, ofTokens config tokens = .ok document) ↔
      (config.has .spacing → ∃ lines, spacingValues config tokens = .ok lines) := by
  obtain ⟨sections, hs⟩ := h
  constructor
  · intro ⟨document, hd⟩ enabled
    obtain ⟨⟨colors, dark⟩, -, hd⟩ := exists_of_bind_eq_ok hd
    simp only [if_pos enabled] at hd
    obtain ⟨lines, hl, -⟩ := exists_of_bind_eq_ok hd
    exact ⟨lines, hl⟩
  · intro spacing
    rw [ofTokens, hs]
    by_cases enabled : config.has .spacing
    · obtain ⟨lines, hl⟩ := spacing enabled
      simp only [if_pos enabled, hl]
      exact ⟨_, rfl⟩
    · simp only [if_neg enabled]
      exact ⟨_, rfl⟩

end TokenDocument

namespace TokenTables

/-- The tokens of a category that is enabled are those of its candidates. -/
theorem keys_table_perm {candidates : Candidates} {roles : RoleAssignment} {config : Config}
    {c : Category} (h : config.has c.feature) :
    ((ofCandidates candidates roles config).table c).keys.Perm (candidates.table c).keys := by
  rw [table_ofCandidates, nameCategory, if_pos h, TokenMap.keys_ofLiterals _ (c.nodup_order _ _)]
  exact c.order_perm _ _

end TokenTables

namespace TokenDocument

theorem isOk_ofTokens_iff_of_palette {declarations : List Declaration} {config : Config}
    {palette : Palette}
    (hp : Palette.ofTable (Candidates.collect declarations).colors = .ok palette) :
    (∃ document, ofTokens config
        (.ofCandidates (.collect declarations) (.ofPalette palette) config) = .ok document) ↔
      (config.has .spacing → config.prefersRootSizes → ∀ d ∈ declarations,
        Property.isSpacing d.property → ∀ literal ∈ Length.literals d.value,
          ¬ Length.IsRefused config.bases literal) := by
  have fits := (Palette.isOk_ofTable_iff declarations).1 ⟨palette, hp⟩
  have sections : ∃ sections, colorSections config
      (.ofCandidates (.collect declarations) (.ofPalette palette) config) = .ok sections := by
    apply isOk_colorSections
    intro e he
    obtain ⟨d, hd, hl⟩ :=
      Candidates.mem_colors_collect_iff.1 (TokenTables.mem_keys_of_mem_colors hp he)
    exact isOk_colorLines hl (fits d hd e.1 hl) config.algorithm
  rw [isOk_ofTokens_iff sections]
  constructor
  · intro lines enabled prefers d hd hs literal hl
    have key := Candidates.mem_spacing_collect_iff.2 ⟨d, hd, hs, hl⟩
    exact isOk_spacingValues_iff.1 (lines enabled) prefers literal
      ((TokenTables.keys_table_perm enabled).mem_iff.2 key)
  · intro h enabled
    apply isOk_spacingValues_iff.2
    intro prefers literal hl
    obtain ⟨d, hd, hs, hl⟩ :=
      Candidates.mem_spacing_collect_iff.1 ((TokenTables.keys_table_perm enabled).mem_iff.1 hl)
    exact h enabled prefers d hd hs literal hl

end TokenDocument

namespace Tokenization

variable {config : Config} {t : Text}

theorem exists_parts {r : Tokenization} (h : ofText config t = .ok r) :
    ∃ palette, Palette.ofTable r.candidates.colors = .ok palette ∧
      r.config = config ∧
      r.converted = Conversion.convertSheet config.bases config.conversions t ∧
      r.candidates = .collect (Declaration.parse r.converted) ∧
      r.tokens = .ofCandidates r.candidates (.ofPalette palette) config ∧
      TokenDocument.ofTokens config r.tokens = .ok r.document := by
  obtain ⟨palette, hp, h⟩ := exists_of_bind_eq_ok h
  obtain ⟨document, hd, h⟩ := exists_of_bind_eq_ok h
  cases h
  exact ⟨palette, hp, rfl, rfl, rfl, rfl, hd⟩

/-- Every literal that has a token was found in a declaration of the sheet. -/
theorem exists_finds {r : Tokenization} (h : ofText config t = .ok r) {c : Category}
    {e : Text × Text} (he : e ∈ (r.tokens.table c).entries) :
    ∃ d ∈ Declaration.parse r.converted, Candidates.Finds d c e.1 := by
  obtain ⟨palette, -, -, -, candidates, tokens, -⟩ := exists_parts h
  rw [tokens, TokenTables.table_ofCandidates, candidates] at he
  exact Candidates.mem_table_collect_iff.1 (TokenTables.mem_keys_of_mem_nameCategory he)

/-- A sheet without colors is tokenized, unless it has spacings that are declared in root font
sizes. -/
theorem exists_ofText_of_colorless
    (colors : ∀ d ∈ Declaration.parse (Conversion.convertSheet config.bases config.conversions t),
      Color.literals d.value = [])
    (spacing : config.prefersRootSizes → ∀ d ∈ Declaration.parse
      (Conversion.convertSheet config.bases config.conversions t), ¬ Property.isSpacing d.property) :
    ∃ r, ofText config t = .ok r := by
  obtain ⟨palette, hp⟩ := (Palette.isOk_ofTable_iff _).2 fun d hd literal hl =>
    absurd (colors d hd ▸ hl) List.not_mem_nil
  have lines := @TokenDocument.isOk_ofTokens_iff_of_palette _ config _ hp
  obtain ⟨document, hd⟩ := lines.2 fun _ prefers d hd hs => absurd hs (spacing prefers d hd)
  exact ⟨_, bind_eq_ok hp (bind_eq_ok hd rfl)⟩

/-- A stylesheet is tokenized unless it has a color or a spacing that arithmetic has no result for;
the latter counts where spacing is declared in root font sizes. -/
theorem exists_ofText_iff (config : Config) (t : Text) :
    let declarations :=
      Declaration.parse (Conversion.convertSheet config.bases config.conversions t)
    (∃ r, ofText config t = .ok r) ↔
      (∀ d ∈ declarations, ∀ literal ∈ Color.literals d.value, ¬ Color.Overflows literal) ∧
        (config.has .spacing → config.prefersRootSizes → ∀ d ∈ declarations,
          Property.isSpacing d.property → ∀ literal ∈ Length.literals d.value,
            ¬ Length.IsRefused config.bases literal) := by
  intro declarations
  have palette := Palette.isOk_ofTable_iff declarations
  constructor
  · intro ⟨r, h⟩
    obtain ⟨p, hp, h⟩ := exists_of_bind_eq_ok h
    obtain ⟨document, hd, h⟩ := exists_of_bind_eq_ok h
    exact ⟨palette.1 ⟨p, hp⟩, (TokenDocument.isOk_ofTokens_iff_of_palette hp).1 ⟨document, hd⟩⟩
  · intro ⟨colors, spacing⟩
    obtain ⟨p, hp⟩ := palette.2 colors
    obtain ⟨document, hd⟩ := (TokenDocument.isOk_ofTokens_iff_of_palette hp).2 spacing
    exact ⟨_, bind_eq_ok hp (bind_eq_ok hd rfl)⟩

/-- A sheet with a percentage of red that is beyond all numbers. -/
def hugeShare : Text := "a\x7bcolor:rgb(1e400%,0,0)\x7d".toList

/-- A sheet with a spacing of one root font size. -/
def rootSpacing : Text := "a\x7bmargin:16px\x7d".toList

/-- Settings for spacing in root font sizes of zero pixels. -/
def rootless : Config := { bases := { root := 0.0 }, prefersRootSizes := true }

theorem not_exists_ofText :
    (¬ ∃ r, ofText .default hugeShare = .ok r) ∧ ¬ ∃ r, ofText rootless rootSpacing = .ok r := by
  constructor
  · rintro ⟨r, h⟩
    have parsed : Declaration.parse hugeShare =
      [⟨"a".toList, "color".toList, "rgb(1e400%,0,0)".toList⟩] := by cbv
    have literal : "rgb(1e400%,0,0)".toList ∈ Color.literals "rgb(1e400%,0,0)".toList := by
      decide +kernel
    have red : Color.argument (Color.arguments
        (Text.lower (Text.trim "rgb(1e400%,0,0)".toList))) 0 = "1e400%".toList := by
      decide +kernel
    have unreal : wholeFault? (Decimal.floatAtStart 0.0 "1e400%".toList * 2.55) ≠ none := by
      decide +kernel
    have large : Color.Overflows "rgb(1e400%,0,0)".toList := by
      refine ⟨List.isPrefixOf_iff_prefix.1 (by decide +kernel), 0, by omega, ?_⟩
      rw [Color.IsTooLarge, red, ← wholeFault?_eq_none_iff]
      exact ⟨by decide, unreal⟩
    obtain ⟨palette, hp, -⟩ := exists_of_bind_eq_ok h
    exact (Palette.isOk_ofTable_iff _).1 ⟨palette, hp⟩ _ (parsed ▸ List.mem_singleton_self _) _
      literal large
  · rintro ⟨r, h⟩
    have parsed : Declaration.parse rootSpacing =
      [⟨"a".toList, "margin".toList, "16px".toList⟩] := by cbv
    have literal : "16px".toList ∈ Length.literals "16px".toList := by decide +kernel
    have refused : Length.IsRefused rootless.bases "16px".toList :=
      ⟨by decide +kernel, ⟨false, ['1', '6'], none⟩, .px, [], by decide +kernel, rfl, by decide +kernel⟩
    obtain ⟨palette, hp, h⟩ := exists_of_bind_eq_ok h
    obtain ⟨document, hd, -⟩ := exists_of_bind_eq_ok h
    exact (TokenDocument.isOk_ofTokens_iff_of_palette hp).1 ⟨document, hd⟩ rfl rfl _
      (parsed ▸ List.mem_singleton_self _) (by decide +kernel) _ literal refused

end Tokenization

end DesignTokens
