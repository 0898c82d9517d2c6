import DesignTokens.Proofs.ConvertedValues
import DesignTokens.Proofs.DocumentReading
import DesignTokens.Proofs.KnownUnits
import DesignTokens.Proofs.TokenizationFaults

/-!
What the document of a stylesheet declares. Each block declares the tokens of some series, and its
sections are these series in their order, so a document without its comments is read as its tokens.
-/
namespace DesignTokens

open Text

def Series.feature : Series → Feature
  | .color => .colors
  | .category c => c.feature

/-- The tokens of a series. -/
def TokenTables.series (tables : TokenTables) : Series → TokenMap
  | .color => tables.colors
  | .category c => tables.table c

/-- The two blocks of a document. -/
inductive Theme where
  | light
  | dark
  deriving DecidableEq, Repr

namespace Theme

def selector : Theme → Text
  | light => TokenDocument.rootSelector
  | dark => TokenDocument.darkSelector

def typography : List Series :=
  [.category .fontFamilies, .category .fontSizes, .category .lineHeights, .category .fontWeights,
    .category .letterSpacings]

/-- The series that a block declares, if their features are enabled. -/
def series : Theme → List Series
  | light =>
    .color :: typography ++
      [.category .spacing, .category .borderWidths, .category .radii, .category .shadows,
        .category .durations, .category .easings]
  | dark => .color :: typography ++ [.category .shadows, .category .durations, .category .easings]

/-- The value that a block gives to the token of a literal. -/
def value (theme : Theme) (config : Config) : Series → Text → Except NumberFault Text
  | .color, literal => do
    let color ← Rgba.ofLiteral literal
    let color ← if theme = dark then color.dark config.algorithm else .ok color
    return color.text
  | .category .spacing, literal =>
    if config.prefersRootSizes then Length.inRootSizes config.bases literal else .ok literal
  | .category .durations, literal => .ok (Duration.inSeconds literal)
  | .category _, literal => .ok literal

/-- The tokens of a series with their values. -/
def tokens (theme : Theme) (config : Config) (tables : TokenTables) (s : Series) :
    Except NumberFault (List (Text × Text)) :=
  (tables.series s).entries.mapM fun (literal, name) => do
    return (name, ← theme.value config s literal)

/-- The tokens of some series, as far as their features are enabled. -/
def declared (theme : Theme) (config : Config) (tables : TokenTables) (ss : List Series) :
    Except NumberFault (List (Text × Text)) := do
  return (← (ss.filter fun s => config.has s.feature).mapM (theme.tokens config tables)).flatten

/-- The declarations of a block. -/
def declarations (theme : Theme) (config : Config) (tables : TokenTables) :
    Except NumberFault (List Declaration) := do
  return (← theme.declared config tables theme.series).map fun (name, value) =>
    ⟨theme.selector, name, trim value⟩

theorem value_eq {theme : Theme} {config : Config} {c : Category} (hs : c ≠ .spacing)
    (hd : c ≠ .durations) (literal : Text) :
    theme.value config (.category c) literal = .ok literal := by
  cases c with
  | spacing => exact absurd rfl hs
  | durations => exact absurd rfl hd
  | _ => rfl

theorem mem_tokens_iff {theme : Theme} {config : Config} {tables : TokenTables} {s : Series}
    {pairs : List (Text × Text)} (h : theme.tokens config tables s = .ok pairs) {name value : Text} :
    (name, value) ∈ pairs ↔
      ∃ e ∈ (tables.series s).entries, e.2 = name ∧ theme.value config s e.1 = .ok value := by
  rw [mem_mapM_iff h]
  refine exists_congr fun e => and_congr_right fun _ => ?_
  constructor
  · intro pair
    obtain ⟨v, hv, pair⟩ := exists_of_bind_eq_ok pair
    cases pair
    exact ⟨rfl, hv⟩
  · rintro ⟨rfl, hv⟩
    exact bind_eq_ok hv rfl

/-- What is declared: each token of an enabled series, with its value. -/
theorem mem_declared_iff {theme : Theme} {config : Config} {tables : TokenTables} {ss : List Series}
    {pairs : List (Text × Text)} (h : theme.declared config tables ss = .ok pairs)
    {name value : Text} : (name, value) ∈ pairs ↔ ∃ s ∈ ss, config.has s.feature ∧
      ∃ e ∈ (tables.series s).entries, e.2 = name ∧ theme.value config s e.1 = .ok value := by
  obtain ⟨groups, hg, h⟩ := exists_of_bind_eq_ok h
  cases h
  constructor
  · intro hm
    obtain ⟨pairs, hl, hm⟩ := List.mem_flatten.1 hm
    obtain ⟨s, hs, tokens⟩ := (mem_mapM_iff hg).1 hl
    obtain ⟨hs, enabled⟩ := List.mem_filter.1 hs
    exact ⟨s, hs, enabled, (mem_tokens_iff tokens).1 hm⟩
  · rintro ⟨s, hs, enabled, hm⟩
    have hs : s ∈ ss.filter fun s => config.has s.feature := List.mem_filter.2 ⟨hs, enabled⟩
    obtain ⟨pairs, tokens⟩ := isOk_mapM_iff.1 ⟨groups, hg⟩ s hs
    have hl := (mem_mapM_iff hg).2 ⟨s, hs, tokens⟩
    exact List.mem_flatten.2 ⟨pairs, hl, (mem_tokens_iff tokens).2 hm⟩

end Theme

/-- Tokens that can be declared: names are plain, and literals are declarable. -/
structure TokenTables.Declarable (tables : TokenTables) : Prop where
  names : ∀ s, ∀ e ∈ (tables.series s).entries, TokenName.Valid e.2
  literals : ∀ c, ∀ e ∈ (tables.table c).entries, Value.IsDeclarable e.1

namespace TokenDocument

/-- The lines declare the tokens of some series, and if these can be declared they can be read
again. -/
structure Declares (theme : Theme) (config : Config) (tables : TokenTables) (ss : List Series)
    (ls : List DocumentLine) : Prop where
  readable : tables.Declarable → ∀ l ∈ ls, l.IsReadable
  declared : theme.declared config tables ss = .ok (ls.filterMap DocumentLine.declared?)

namespace Declares

variable {theme : Theme} {config : Config} {tables : TokenTables} {ss ss' : List Series}
  {ls ls' : List DocumentLine}

theorem append (h : Declares theme config tables ss ls)
    (h' : Declares theme config tables ss' ls') :
    Declares theme config tables (ss ++ ss') (ls ++ ls') := by
  constructor
  · exact fun ht l hl => (List.mem_append.1 hl).elim (h.readable ht l) (h'.readable ht l)
  · obtain ⟨groups, hg, same⟩ := exists_of_bind_eq_ok h.declared
    obtain ⟨groups', hg', same'⟩ := exists_of_bind_eq_ok h'.declared
    rw [List.filterMap_append, ← Except.ok.inj same, ← Except.ok.inj same', ← List.flatten_append,
      Theme.declared, List.filter_append, List.mapM_append]
    exact bind_eq_ok (bind_eq_ok hg (bind_eq_ok hg' rfl)) rfl

theorem titled (opening : Bool) {t : Text} (ht : '*' ∉ t) (h : Declares theme config tables ss ls) :
    Declares theme config tables ss (.title opening t :: ls) := by
  constructor
  · intro declarable l hl
    rcases List.mem_cons.1 hl with rfl | hl
    · exact ht
    · exact h.readable declarable l hl
  · exact h.declared

/-- A section without lines has no title. -/
theorem ofSection {t : Text} (ht : '*' ∉ t) (h : Declares theme config tables ss ls) :
    Declares theme config tables ss (if ls.isEmpty then [] else .title false t :: ls) := by
  split_ifs with empty
  · rwa [List.isEmpty_iff.1 empty] at h
  · exact h.titled false ht

/-- Series of a feature that is not enabled have no lines. -/
theorem linesIf {f : Feature} (hs : ∀ s ∈ ss, s.feature = f)
    (h : config.has f → Declares theme config tables ss ls) :
    Declares theme config tables ss (linesIf config f ls) := by
  rw [TokenDocument.linesIf]
  split_ifs with enabled
  · exact h enabled
  · constructor
    · simp
    · have none : (ss.filter fun s => config.has s.feature) = [] := by
        rw [List.filter_eq_nil_iff]
        exact fun s hs' => by rwa [hs s hs']
      rw [Theme.declared, none]
      rfl

/-- The lines of a series with a value for each literal. -/
theorem ofValues {s : Series} (enabled : config.has s.feature) (h : List.Forall₂ (fun e l =>
    ∃ v, theme.value config s e.1 = .ok v ∧ (tables.Declarable → Value.IsDeclarable v) ∧
      l = .declaration e.2 v) (tables.series s).entries ls) :
    Declares theme config tables [s] ls := by
  have names (ht : tables.Declarable) := ht.names s
  have main : (tables.Declarable → ∀ l ∈ ls, l.IsReadable) ∧
      theme.tokens config tables s = .ok (ls.filterMap DocumentLine.declared?) := by
    rw [Theme.tokens]
    generalize (tables.series s).entries = entries at h names
    induction h with
    | nil => exact ⟨by simp, rfl⟩
    | @cons e l entries ls hl _ ih =>
        obtain ⟨v, hv, declarable, rfl⟩ := hl
        obtain ⟨readable, tokens⟩ := ih fun ht e he => names ht e (by simp [he])
        constructor
        · intro ht l hl
          rcases List.mem_cons.1 hl with rfl | hl
          · exact ⟨names ht e (by simp), declarable ht⟩
          · exact readable ht l hl
        · rw [List.mapM_cons]
          exact bind_eq_ok (bind_eq_ok hv rfl) (bind_eq_ok tokens rfl)
  refine ⟨main.1, ?_⟩
  have only : [s].filter (fun s => config.has s.feature) = [s] := by simp [enabled]
  have group : [s].mapM (theme.tokens config tables) =
      .ok [ls.filterMap DocumentLine.declared?] := by
    rw [List.mapM_cons]
    exact bind_eq_ok main.2 rfl
  rw [Theme.declared, only]
  refine bind_eq_ok group ?_
  rw [List.flatten_cons, List.flatten_nil, List.append_nil]
  rfl

theorem ofTable {c : Category} (enabled : config.has c.feature) (render : Text → Text)
    (hv : ∀ literal, theme.value config (.category c) literal = .ok (render literal))
    (hr : ∀ literal, Value.IsDeclarable literal → Value.IsDeclarable (render literal)) :
    Declares theme config tables [.category c]
      (TokenDocument.declarations render (tables.table c)) := by
  apply ofValues enabled
  rw [TokenDocument.declarations, List.forall₂_map_right_iff]
  apply List.forall₂_same.2
  exact fun e he => ⟨render e.1, hv e.1, fun ht => hr e.1 (ht.literals c e he), rfl⟩

theorem ofSectionOf {c : Category} (enabled : config.has c.feature) {title : String}
    (hl : '*' ∉ title.toList) (render : Text → Text)
    (hv : ∀ literal, theme.value config (.category c) literal = .ok (render literal))
    (hr : ∀ literal, Value.IsDeclarable literal → Value.IsDeclarable (render literal)) :
    Declares theme config tables [.category c] (sectionOf title render (tables.table c)) := by
  have lines := ofSection hl (@ofTable theme config tables c enabled render hv hr)
  rw [sectionOf]
  convert lines using 2
  simp [OrderedMap.isEmpty, TokenDocument.declarations]

/-- A section of literals as they are. -/
theorem ofLiterals {c : Category} {f : Feature} (hf : c.feature = f) (hs : c ≠ .spacing)
    (hd : c ≠ .durations) (title : String) (hl : '*' ∉ title.toList) :
    Declares theme config tables [.category c]
      (TokenDocument.linesIf config f (sectionOf title id (tables.table c))) :=
  .linesIf (by simpa [Series.feature]) fun enabled =>
    .ofSectionOf (hf ▸ enabled) hl id (Theme.value_eq hs hd) fun _ h => h

theorem flatMap {entries : List (Category × String)} {f : Category × String → List DocumentLine}
    (h : ∀ e ∈ entries, Declares theme config tables [.category e.1] (f e)) :
    Declares theme config tables (entries.map fun e => .category e.1) (entries.flatMap f) := by
  induction entries with
  | nil => exact ⟨by simp, rfl⟩
  | cons e entries ih => exact (h e (by simp)).append (ih fun e he => h e (by simp [he]))

/-- The lines that declare tokens. -/
theorem mem_iff (h : Declares theme config tables ss ls) {name value : Text} :
    .declaration name value ∈ ls ↔ ∃ s ∈ ss, config.has s.feature ∧
      ∃ e ∈ (tables.series s).entries, e.2 = name ∧ theme.value config s e.1 = .ok value := by
  rw [← Theme.mem_declared_iff h.declared, List.mem_filterMap]
  constructor
  · intro hl
    exact ⟨_, hl, rfl⟩
  · rintro ⟨⟨_ | _⟩, hl, ⟨⟩⟩
    exact hl

end Declares

/-- What a document is put together from. -/
theorem exists_of_ofTokens {config : Config} {tables : TokenTables} {d : TokenDocument}
    (h : ofTokens config tables = .ok d) :
    ∃ colors spacing, colorSections config tables = .ok colors ∧
      (if config.has .spacing then spacingValues config tables else .ok []) = .ok spacing ∧
        d = {
          root := colors.1 ++ linesIf config .typography (typographyRoot tables) ++ spacing ++
            linesIf config .borders
              (sectionOf "Border widths" id (tables.table .borderWidths)) ++
            linesIf config .radius (sectionOf "Radii" id (tables.table .radii)) ++
            linesIf config .shadows (sectionOf "Shadows" id (tables.table .shadows)) ++
            linesIf config .motion (motionSections tables)
          dark := colors.2 ++ linesIf config .typography (typographyDark tables) ++
            linesIf config .shadows (sectionOf "Shadows (same as light; adjust if needed)" id
              (tables.table .shadows)) ++
            linesIf config .motion (motionSections tables) } := by
  obtain ⟨colors, hcolors, h⟩ := exists_of_bind_eq_ok h
  by_cases enabled : config.has .spacing
  · simp only [if_pos enabled] at h
    obtain ⟨spacing, hspacing, h⟩ := exists_of_bind_eq_ok h
    cases h
    exact ⟨colors, spacing, hcolors, by rw [if_pos enabled, hspacing], rfl⟩
  · simp only [if_neg enabled] at h
    cases h
    exact ⟨colors, [], hcolors, by rw [if_neg enabled], rfl⟩

section Sections

variable {config : Config} {tables : TokenTables}

theorem declares_colors {sections : List DocumentLine × List DocumentLine}
    (h : colorSections config tables = .ok sections) :
    Declares .light config tables [.color] sections.1 ∧
      Declares .dark config tables [.color] sections.2 := by
  rw [colorSections] at h
  split_ifs at h with enabled
  · rw [Bool.and_eq_true] at enabled
    obtain ⟨pairs, hpairs, h⟩ := exists_of_bind_eq_ok h
    cases h
    have lines := forall₂_of_mapM_eq_ok hpairs
    constructor
    · apply Declares.titled true (by decide)
      apply Declares.ofValues enabled.1
      rw [List.forall₂_map_right_iff]
      refine lines.imp fun e pair hpair => ?_
      obtain ⟨color, hcolor, hpair⟩ := exists_of_bind_eq_ok hpair
      obtain ⟨dark, -, hpair⟩ := exists_of_bind_eq_ok hpair
      cases hpair
      exact ⟨_, bind_eq_ok hcolor (bind_eq_ok rfl rfl),
        fun _ => isDeclarable_of_isWritten color.isWritten_text, rfl⟩
    · apply Declares.titled true (by decide)
      apply Declares.ofValues enabled.1
      rw [List.forall₂_map_right_iff]
      refine lines.imp fun e pair hpair => ?_
      obtain ⟨color, hcolor, hpair⟩ := exists_of_bind_eq_ok hpair
      obtain ⟨dark, hdark, hpair⟩ := exists_of_bind_eq_ok hpair
      cases hpair
      exact ⟨_, bind_eq_ok hcolor (bind_eq_ok hdark rfl),
        fun _ => isDeclarable_of_isWritten dark.isWritten_text, rfl⟩
  · cases h
    have none (theme : Theme) : Declares theme config tables [.color] [] := by
      by_cases enabled' : config.has .colors
      · have empty : tables.colors.entries = [] := by
          simpa [enabled', OrderedMap.isEmpty] using enabled
        apply Declares.ofValues enabled'
        rw [TokenTables.series, empty]
        exact .nil
      · have lines := @Declares.linesIf theme config tables [.color] [] .colors (by decide)
          (fun enabled => absurd enabled enabled')
        rwa [linesIf, if_neg enabled'] at lines
    exact ⟨none .light, none .dark⟩

theorem declares_typographyRoot :
    Declares .light config tables Theme.typography
      (linesIf config .typography (typographyRoot tables)) := by
  apply Declares.linesIf (by decide)
  intro enabled
  have titles : typography.all fun e => e.1.feature = .typography ∧ e.1 ≠ .spacing ∧
      e.1 ≠ .durations ∧ '*' ∉ e.2.toList := by decide
  refine Declares.flatMap fun e (he : e ∈ typography) => ?_
  obtain ⟨hf, hs, hd, hl⟩ := by simpa using List.all_eq_true.1 titles e he
  exact .ofSectionOf (hf ▸ enabled) hl id (Theme.value_eq hs hd) fun _ h => h

theorem declares_typographyDark :
    Declares .dark config tables Theme.typography
      (linesIf config .typography (typographyDark tables)) := by
  apply Declares.linesIf (by decide)
  intro enabled
  apply Declares.ofSection (by decide)
  have categories : typography.all fun e => e.1.feature = .typography ∧ e.1 ≠ .spacing ∧
      e.1 ≠ .durations := by decide
  refine Declares.flatMap fun e (he : e ∈ typography) => ?_
  obtain ⟨hf, hs, hd⟩ := by simpa using List.all_eq_true.1 categories e he
  exact .ofTable (hf ▸ enabled) id (Theme.value_eq hs hd) fun _ h => h

theorem declares_spacing {lines : List DocumentLine}
    (h : (if config.has .spacing then spacingValues config tables else .ok []) = .ok lines) :
    Declares .light config tables [.category .spacing] lines := by
  split_ifs at h with enabled
  · rw [spacingValues] at h
    split_ifs at h with preferred
    · obtain ⟨lines, hlines, h⟩ := exists_of_bind_eq_ok h
      cases h
      apply Declares.ofSection (by decide)
      apply Declares.ofValues enabled
      rw [List.forall₂_iff_zip]
      obtain ⟨length, values⟩ := List.forall₂_iff_zip.1 (forall₂_of_mapM_eq_ok hlines)
      refine ⟨length, fun {e l} hel => ?_⟩
      obtain ⟨value, hv, hl⟩ := exists_of_bind_eq_ok (values hel)
      cases hl
      have literal (ht : tables.Declarable) := ht.literals .spacing e (List.of_mem_zip hel).1
      refine ⟨value, ?_, fun ht => Length.isDeclarable_inRootSizes (literal ht) hv, rfl⟩
      rw [Theme.value, if_pos preferred, hv]
    · cases h
      apply Declares.ofSectionOf enabled (by decide)
      · intro literal
        simp [Theme.value, preferred]
      · exact fun _ h => h
  · cases h
    have none := @Declares.linesIf .light config tables [.category .spacing] [] .spacing (by decide)
      fun enabled' => absurd enabled' enabled
    rwa [linesIf, if_neg enabled] at none

theorem declares_motion (theme : Theme) :
    Declares theme config tables [.category .durations, .category .easings]
      (linesIf config .motion (motionSections tables)) := by
  apply Declares.linesIf (by decide)
  intro enabled
  have durations : Declares theme config tables [.category .durations]
      (sectionOf "Durations" Duration.inSeconds (tables.table .durations)) :=
    .ofSectionOf enabled (by decide) Duration.inSeconds (fun _ => rfl)
      fun literal _ => isDeclarable_of_isWritten (Duration.isWritten_inSeconds literal)
  have easings : Declares theme config tables [.category .easings]
      (sectionOf "Easing" id (tables.table .easings)) :=
    .ofSectionOf enabled (by decide) id (fun _ => rfl) fun _ h => h
  exact durations.append easings

/-- Both blocks of a document declare all series that they are made for. -/
theorem declares_ofTokens {d : TokenDocument} (h : ofTokens config tables = .ok d) :
    Declares .light config tables Theme.light.series d.root ∧
      Declares .dark config tables Theme.dark.series d.dark := by
  obtain ⟨⟨colors, darkColors⟩, spacing, hcolors, hspacing, rfl⟩ := exists_of_ofTokens h
  obtain ⟨light, dark⟩ := declares_colors hcolors
  have widths : Declares .light config tables [.category .borderWidths]
      (linesIf config .borders (sectionOf "Border widths" id (tables.table .borderWidths))) :=
    .ofLiterals rfl (by decide) (by decide) _ (by decide)
  have radii : Declares .light config tables [.category .radii]
      (linesIf config .radius (sectionOf "Radii" id (tables.table .radii))) :=
    .ofLiterals rfl (by decide) (by decide) _ (by decide)
  have shadows (theme : Theme) (title : String) (hl : '*' ∉ title.toList) :
      Declares theme config tables [.category .shadows]
        (linesIf config .shadows (sectionOf title id (tables.table .shadows))) :=
    .ofLiterals rfl (by decide) (by decide) title hl
  constructor
  · exact (((((light.append declares_typographyRoot).append
      (declares_spacing hspacing)).append widths).append radii).append
      (shadows .light _ (by decide))).append (declares_motion .light)
  · exact ((dark.append declares_typographyDark).append (shadows .dark _ (by decide))).append
      (declares_motion .dark)

end Sections

end TokenDocument

namespace Tokenization

theorem declarable_tokens {config : Config} {t : Text} {r : Tokenization}
    (h : ofText config t = .ok r) (names : config.NamesPlainly) (units : config.ConvertsKnown)
    (ht : ¬ ['/', '*'] <:+: t) : r.tokens.Declarable := by
  obtain ⟨palette, -, -, converted, -, tokens, -⟩ := exists_parts h
  constructor
  · intro s e he
    rw [tokens] at he
    cases s with
    | color => exact TokenTables.valid_colors names e he
    | category c => exact TokenTables.valid_table names c e he
  · intro c e he
    obtain ⟨d, hd, found⟩ := exists_finds h he
    rw [converted] at hd
    exact found.isDeclarable (Conversion.isDeclarable_of_mem_parse units _ ht d hd)

/-- The document of a sheet without comments, when its own comments are removed, is read as the
tokens: a declaration for each token of each series that a block declares, first in the block for
the root, then in the dark one. -/
theorem parse_documentText {config : Config} {t : Text} {r : Tokenization}
    (h : ofText config t = .ok r) (prefixes : config.tokenPrefix = Config.default.tokenPrefix)
    (units : config.ConvertsKnown) (ht : ¬ "/*".toList <:+: t) :
    ∃ text light dark, r.documentText = .ok text ∧
      Theme.light.declarations config r.tokens = .ok light ∧
        Theme.dark.declarations config r.tokens = .ok dark ∧
          Declaration.parse (withoutComments text) = light ++ dark := by
  have tokens := declarable_tokens h (Config.namesPlainly_of_tokenPrefix prefixes) units ht
  obtain ⟨palette, -, same, -, -, -, document⟩ := exists_parts h
  obtain ⟨light, dark⟩ := TokenDocument.declares_ofTokens document
  have written : r.documentText = .ok r.document.text := by
    rw [documentText, same, prefixes, if_neg]
    decide
  refine ⟨_, _, _, written, bind_eq_ok light.declared rfl, bind_eq_ok dark.declared rfl, ?_⟩
  apply TokenDocument.parse_text
  exact fun l hl => (List.mem_append.1 hl).elim (light.readable tokens l) (dark.readable tokens l)

/-- A sheet with a spacing and a color. -/
def spacedColor : Text := "a\x7bmargin:24px;color:#abc\x7d".toList

/-- Settings for names made from digests, and for spacing in root font sizes. -/
def stableRootSizes : Config := { naming := .stable, prefersRootSizes := true }

theorem exists_ofText_spacedColor : ∃ r, ofText stableRootSizes spacedColor = .ok r := by
  let ds : List Declaration := [⟨"a".toList, "margin".toList, "24px".toList⟩,
    ⟨"a".toList, "color".toList, "#abc".toList⟩]
  have parsed : Declaration.parse spacedColor = ds := by cbv
  have literals : ∀ d ∈ ds, ∀ literal ∈ Color.literals d.value, ¬ Color.Overflows literal := by
    have named : ds.all fun d => (Color.literals d.value).all fun literal =>
        !("rgb".toList.isPrefixOf (Text.lower (Text.trim literal))) := by decide +kernel
    intro d hd literal hl overflows
    have none := List.all_eq_true.1 (List.all_eq_true.1 named d hd) literal hl
    rw [List.isPrefixOf_iff_prefix.2 overflows.1] at none
    cases none
  obtain ⟨palette, hp⟩ := (Palette.isOk_ofTable_iff ds).2 literals
  have spacing : ∀ literal, ¬ Length.IsRefused stableRootSizes.bases literal :=
    fun _ refused => absurd refused.1 (by decide +kernel)
  have lines := @TokenDocument.isOk_ofTokens_iff_of_palette ds stableRootSizes palette hp
  obtain ⟨document, hd⟩ := lines.2 fun _ _ _ _ _ literal _ => spacing literal
  rw [← parsed] at hp hd
  exact ⟨_, bind_eq_ok hp (bind_eq_ok hd rfl)⟩

theorem parse_documentText_spacedColor : ∃ r, ofText stableRootSizes spacedColor = .ok r ∧
    stableRootSizes.tokenPrefix = Config.default.tokenPrefix ∧ stableRootSizes.ConvertsKnown ∧
      ¬ "/*".toList <:+: spacedColor ∧
        ∃ text light dark, r.documentText = .ok text ∧
          Theme.light.declarations stableRootSizes r.tokens = .ok light ∧
            Theme.dark.declarations stableRootSizes r.tokens = .ok dark ∧
              Declaration.parse (withoutComments text) = light ++ dark := by
  obtain ⟨r, h⟩ := exists_ofText_spacedColor
  have plain : ¬ "/*".toList <:+: spacedColor := by decide +kernel
  have units : stableRootSizes.ConvertsKnown := fun _ hc => nomatch hc
  exact ⟨r, h, rfl, units, plain, parse_documentText h rfl units plain⟩

end Tokenization

end DesignTokens
