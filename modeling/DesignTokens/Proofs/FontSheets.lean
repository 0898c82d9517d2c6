import DesignTokens.Proofs.ConvertedValues
import DesignTokens.Proofs.RewrittenFonts
import DesignTokens.Proofs.SheetPasses
import DesignTokens.Proofs.TokenizationFaults

/-!
Stylesheets of one plain `font` value. Its parts are the only candidates, each alone in its
category, so only the pass for typography has something to do, and the value is rewritten part by
part. Main statement: `tokenized_iff`.
-/
namespace DesignTokens

open Text TokenTables

namespace Candidates

variable {t : Candidates} {c c' : Category}

theorem table_countOption_of_ne (h : c' ≠ c) (literal : Option Text) :
    (t.countOption c literal).table c' = t.table c' := by
  cases literal with
  | none => rfl
  | some literal =>
      simp [countOption, count, countFrom, table, OrderedMap.get?_alter, h]

theorem keys_table_countOption (h : t.table c = .empty) (literal : Option Text) :
    ((t.countOption c literal).table c).keys = literal.toList := by
  cases literal with
  | none =>
      rw [countOption, Option.elim_none, h]
      rfl
  | some literal =>
      simp only [table] at h
      simp only [countOption, Option.elim_some, count, countFrom, table, OrderedMap.get?_alter,
        if_true, Option.getD_some, h]
      rfl

theorem add_font {d : Declaration} (hp : d.property = "font".toList)
    (colorless : Color.literals d.value = []) : t.add d = t.addShorthand d.value := by
  have colors : t.addColors d = t := by rw [addColors, colorless, List.foldl_nil]
  have typography (t : Candidates) : t.addTypography d = t.addShorthand d.value := by
    rw [addTypography, if_pos hp]
  have spacing (t : Candidates) : t.addSpacing d = t := by
    rw [addSpacing, hp, if_neg (by decide)]
  have border (t : Candidates) : t.addBorder d = t := by rw [addBorder, hp, if_neg (by decide)]
  have radius (t : Candidates) : t.addRadius d = t := by rw [addRadius, hp, if_neg (by decide)]
  have shadow (t : Candidates) : t.addShadow d = t := by rw [addShadow, hp, if_neg (by decide)]
  have motion (t : Candidates) : t.addMotion d = t := by rw [addMotion, hp, if_neg (by decide)]
  rw [add, colors, typography, spacing, border, radius, shadow, motion]

theorem colors_countOption (t : Candidates) (c : Category) (literal : Option Text) :
    (t.countOption c literal).colors = t.colors := by
  cases literal <;> rfl

theorem colors_addShorthand (t : Candidates) (value : Text) :
    (t.addShorthand value).colors = t.colors := by
  have family (t : Candidates) (value : Text) : (t.addFamily value).colors = t.colors := by
    rw [addFamily]
    split <;> rfl
  rw [addShorthand]
  cases (FontShorthand.parse value).family with
  | none => simp only [Option.elim_none, colors_countOption]
  | some value => simp only [Option.elim_some, family, colors_countOption]

/-- The parts of a `font` value are alone in their categories. -/
theorem keys_addShorthand {value size : Text} {height weight : Option Text} {family : Text}
    (h : FontShorthand.parse value = ⟨some size, height, weight, some family⟩)
    (hf : Value.isWideKeyword (Value.fontFamily family) = false) (c : Category) :
    ((empty.addShorthand value).table c).keys =
      match c with
      | .fontSizes => [size]
      | .lineHeights => height.toList
      | .fontWeights => weight.toList
      | .fontFamilies => [Value.fontFamily family]
      | _ => [] := by
  have fonts : empty.addShorthand value = (((empty.countOption .fontSizes (some size)).countOption
      .lineHeights height).countOption .fontWeights weight).countOption .fontFamilies
        (some (Value.fontFamily family)) := by
    simp only [addShorthand, h, Option.elim_some, addFamily, hf]
    rfl
  rw [fonts]
  cases c with
  | fontSizes =>
      rw [table_countOption_of_ne (by decide), table_countOption_of_ne (by decide),
        table_countOption_of_ne (by decide), keys_table_countOption rfl]
      rfl
  | lineHeights =>
      rw [table_countOption_of_ne (by decide), table_countOption_of_ne (by decide),
        keys_table_countOption rfl]
  | fontWeights =>
      rw [table_countOption_of_ne (by decide), keys_table_countOption]
      rw [table_countOption_of_ne (by decide)]
      rfl
  | fontFamilies =>
      rw [keys_table_countOption]
      · rfl
      · rw [table_countOption_of_ne (by decide), table_countOption_of_ne (by decide)]
        rfl
  | spacing | borderWidths | radii | shadows | durations | easings | letterSpacings =>
      rw [table_countOption_of_ne (by decide), table_countOption_of_ne (by decide),
        table_countOption_of_ne (by decide), table_countOption_of_ne (by decide)]
      rfl

end Candidates

namespace TokenTables

variable {candidates : Candidates} {roles : RoleAssignment} {config : Config}

/-- A candidate that is alone in its category is the only one that is named. -/
theorem exists_entries_table (prefixes : config.NamesPlainly) {c : Category}
    (enabled : config.has c.feature) {literal : Option Text}
    (h : (candidates.table c).keys = literal.toList) :
    ∃ name, TokenName.Valid name ∧
      ((ofCandidates candidates roles config).table c).entries = literal.toList.map (·, name) := by
  have keys := @keys_table_perm candidates roles config c enabled
  have valid := @valid_table candidates roles config prefixes c
  rw [h, OrderedMap.keys] at keys
  generalize ((ofCandidates candidates roles config).table c).entries = entries at keys valid ⊢
  cases literal with
  | none =>
      have none := List.map_eq_nil_iff.1 (List.perm_nil.1 keys)
      exact ⟨_, TokenName.valid_dashes, none⟩
  | some literal =>
      obtain ⟨e, he, rfl⟩ := List.map_eq_singleton_iff.1 (List.perm_singleton.1 keys)
      obtain rfl : entries = [e] := he
      exact ⟨e.2, valid e List.mem_cons_self, rfl⟩

theorem isEmpty_table {c : Category} (h : (candidates.table c).keys = []) :
    ((ofCandidates candidates roles config).table c).isEmpty := by
  rw [table_ofCandidates]
  exact isEmpty_nameCategory h

/-- Tokens of typography alone are put in by the pass for typography alone. -/
theorem substitute_eq_of_typography {tokens : TokenTables} {features : List Feature}
    (enabled : features.contains .typography) (colors : tokens.colors.isEmpty)
    (others : ∀ c : Category, c.feature ≠ .typography → (tokens.table c).isEmpty)
    (valid : ∀ e ∈ (tokens.table .fontWeights).entries, TokenName.Valid e.2) (t : Text) :
    tokens.substitute features t = .ok (Sheet.mapValues (fun _ property value =>
      typographyValue (FontShorthand.plainTemplates tokens) tokens property value) t) := by
  have disabled (f : Feature) (cs : List Category) (hcs : ∀ c ∈ cs, c.feature ≠ .typography) :
      tokens.enables features f cs = false := by
    have none : (cs.any fun c => !(tokens.table c).isEmpty) = false :=
      List.any_eq_false.2 fun c hc => by simp [others c (hcs c hc)]
    rw [enables, none, Bool.and_false]
  have early : tokens.earlyPasses features = [] := by
    rw [earlyPasses, disabled _ _ (by decide), disabled _ _ (by decide), colors]
    simp [passesIf]
  have late : tokens.latePasses features = [] := by
    rw [latePasses, disabled _ _ (by decide), disabled _ _ (by decide), disabled _ _ (by decide)]
    rfl
  rw [substitute_eq_runAll (FontShorthand.weightTemplates_eq_of_valid valid), laterPasses, enabled,
    early, late]
  rfl

end TokenTables

namespace FontValue

variable (v : FontValue)

/-- A plain value has no colors. -/
theorem colors_text : Color.literals v.text = [] := by
  refine List.eq_nil_iff_forall_not_mem.2 fun literal hl => ?_
  have inside : literal <:+: v.text := infix_of_mem_tokens hl
  have absent (c : Char) (hc : isFontChar c = false) : c ∉ literal := by
    intro mem
    have plain := v.isFontChar_of_mem_text c (inside.subset mem)
    rw [hc] at plain
    cases plain
  rcases Color.eq_of_mem_literals hl with ⟨digits, rfl, -⟩ | ⟨head, -, args, -, rfl⟩
  · exact absent '#' rfl List.mem_cons_self
  · exact absent ')' rfl (by simp)

/-- The value with its parts as references to their tokens, if they all have tokens. -/
def referenced? (v : FontValue) (tokens : TokenTables) : Option Text := do
  let weight ← v.weight.elim (some []) fun w =>
    ((tokens.table .fontWeights).reference? w).map (· ++ [' '])
  let size ← (tokens.table .fontSizes).reference? v.sizeText
  let height ← v.lineHeight.elim (some []) fun l =>
    ((tokens.table .lineHeights).reference? l.text).map (" / ".toList ++ ·)
  let family ← (tokens.table .fontFamilies).reference? v.family
  return weight ++ (size ++ (height ++ ' ' :: family))

theorem Named.referenced?_eq {v : FontValue} {tokens : TokenTables}
    {weight size height family : Text} (n : v.Named tokens weight size height family) :
    v.referenced? tokens = some (v.referenceText weight size height family) := by
  have sized := TokenMap.reference?_of_single n.sizes (n.valid size (by simp))
  have named := TokenMap.reference?_of_single n.families (n.valid family (by simp))
  have weights : (v.weight.elim (some []) fun w =>
      ((tokens.table .fontWeights).reference? w).map (· ++ [' '])) =
        some (v.weight.elim [] fun _ => reference weight ++ [' ']) := by
    have entries := n.weights
    cases h : v.weight with
    | none => rfl
    | some w =>
        rw [h] at entries
        simp [TokenMap.reference?_of_single entries (n.valid weight (by simp))]
  have heights : (v.lineHeight.elim (some []) fun l =>
      ((tokens.table .lineHeights).reference? l.text).map (" / ".toList ++ ·)) =
        some (v.lineHeight.elim [] fun _ => " / ".toList ++ reference height) := by
    have entries := n.heights
    cases h : v.lineHeight with
    | none => rfl
    | some l =>
        rw [h] at entries
        simp [TokenMap.reference?_of_single entries (n.valid height (by simp))]
  rw [FontValue.referenced?, weights, sized, heights, named]
  rfl

/-- Where no weight is found that is not there, the parts are the candidates. -/
theorem keys_text (h : ¬ v.HidesWeight) (c : Category) :
    ((Candidates.empty.addShorthand v.text).table c).keys =
      match c with
      | .fontSizes => [v.sizeText]
      | .lineHeights => (v.lineHeight.map Numeral.text).toList
      | .fontWeights => v.weight.toList
      | .fontFamilies => [v.family]
      | _ => [] := by
  have normal : Value.fontFamily v.family = v.family := Value.fontFamily_join v.family_names
  have wide := Value.not_isWideKeyword_join v.families_ne v.family_names
  have keys := Candidates.keys_addShorthand (v.parse_text_iff.2 h) (normal.symm ▸ wide) c
  rwa [normal] at keys

theorem exists_named (h : ¬ v.HidesWeight) {config : Config} (enabled : config.has .typography)
    (prefixes : config.NamesPlainly) (roles : RoleAssignment) :
    ∃ weight size height family, v.Named
      (.ofCandidates (Candidates.empty.addShorthand v.text) roles config)
        weight size height family := by
  have keys := v.keys_text h
  have named (c : Category) (hc : c.feature = .typography) (literal : Option Text)
      (h : ((Candidates.empty.addShorthand v.text).table c).keys = literal.toList) :=
    @exists_entries_table _ roles config prefixes c (hc ▸ enabled) literal h
  obtain ⟨weight, validWeight, weights⟩ := named .fontWeights rfl _ (keys .fontWeights)
  obtain ⟨size, validSize, sizes⟩ := named .fontSizes rfl (some v.sizeText) (keys .fontSizes)
  obtain ⟨height, validHeight, heights⟩ := named .lineHeights rfl _ (keys .lineHeights)
  obtain ⟨family, validFamily, families⟩ :=
    named .fontFamilies rfl (some v.family) (keys .fontFamilies)
  refine ⟨weight, size, height, family, weights, sizes, ?_, families, ?_⟩
  · rw [heights]
    cases v.lineHeight <;> rfl
  · simp only [List.forall_mem_cons]
    exact ⟨validWeight, validSize, validHeight, validFamily, List.forall_mem_nil _⟩

theorem trim_referenceText (v : FontValue) (weight size height family : Text) {blanks : Text}
    (hb : ∀ c ∈ blanks, isBlank c) :
    trim (v.referenceText weight size height family ++ blanks) =
      v.referenceText weight size height family := by
  refine trim_append_blanks ?_ ?_ hb
  · rw [referenceText]
    cases v.weight <;> rfl
  · have ends (a b : Text) : (a ++ ' ' :: (b ++ [')'])).getLast? = some ')' := by
      rw [← List.cons_append, ← List.append_assoc, List.getLast?_concat]
    have last : (v.referenceText weight size height family).getLast? = some ')' := by
      rw [referenceText, ← List.append_assoc, ← List.append_assoc]
      exact ends _ _
    rw [last]
    rfl

theorem Named.fits_referenceText {v : FontValue} {tokens : TokenTables}
    {weight size height family : Text} (n : v.Named tokens weight size height family)
    {blanks : Text} (hb : ∀ c ∈ blanks, isBlank c) :
    Value.Fits (v.referenceText weight size height family ++ blanks) := by
  have absent {c : Char} (hc : TokenName.separates c) (solid : isBlank c = false)
      (slash : c ∉ " / ".toList) : c ∉ v.referenceText weight size height family ++ blanks := by
    have blank : c ∉ blanks := fun mem => by simp [hb c mem] at solid
    have space : c ≠ ' ' := by
      rintro rfl
      cases solid
    have named : ∀ name ∈ [weight, size, height, family], c ∉ reference name :=
      fun name hname => notMem_reference n.valid hname hc
    have weighted : c ∉ v.weight.elim [] fun _ => reference weight ++ [' '] := by
      cases v.weight with
      | none => exact List.not_mem_nil
      | some w => simpa [space] using named weight (by simp)
    have heights : c ∉ v.lineHeight.elim [] fun _ => " / ".toList ++ reference height := by
      cases v.lineHeight with
      | none => exact List.not_mem_nil
      | some l =>
          rw [Option.elim_some, List.mem_append, not_or]
          exact ⟨slash, named height (by simp)⟩
    simp only [referenceText, List.mem_append, List.mem_cons, not_or]
    exact ⟨⟨weighted, named size (by simp), heights, space, named family (by simp)⟩, blank⟩
  exact ⟨absent rfl rfl (by decide), absent rfl rfl (by decide)⟩

/-- The tokenization of a sheet of one plain value, and the sheet that is rewritten: it declares the
references to the tokens of the parts. -/
def IsRewritten (v : FontValue) (config : Config) (t selector : Text) : Prop :=
  ∃ r out value, Tokenization.ofText config t = .ok r ∧
    r.tokens.substitute r.config.features r.converted = .ok out ∧
      v.referenced? r.tokens = some value ∧
        Declaration.parse out = [⟨selector, "font".toList, value⟩]

theorem Named.valid_weights {v : FontValue} {tokens : TokenTables}
    {weight size height family : Text} (n : v.Named tokens weight size height family) :
    ∀ e ∈ (tokens.table .fontWeights).entries, TokenName.Valid e.2 := by
  intro e he
  rw [n.weights] at he
  obtain ⟨w, -, rfl⟩ := List.mem_map.1 he
  exact n.valid weight List.mem_cons_self

section Sheet

variable {v : FontValue} {t selector : Text}
  (h : Declaration.parse t = [⟨selector, "font".toList, v.text⟩])
include h

/-- Where the parts have names and nothing else has, the sheet declares the references. -/
theorem Named.parse_substitute {tokens : TokenTables} {weight size height family : Text}
    (n : v.Named tokens weight size height family) {features : List Feature}
    (enabled : features.contains .typography) (colors : tokens.colors.isEmpty)
    (others : ∀ c : Category, c.feature ≠ .typography → (tokens.table c).isEmpty) :
    ∃ out, tokens.substitute features t = .ok out ∧
      Declaration.parse out =
        [⟨selector, "font".toList, v.referenceText weight size height family⟩] := by
  have substituted := substitute_eq_of_typography enabled colors others n.valid_weights t
  obtain ⟨d, raw, hd⟩ := List.map_eq_singleton_iff.1 ((Declaration.parse_eq_map_raw t).symm.trans h)
  obtain ⟨rfl, property, value⟩ := Declaration.mk.inj hd
  have mem : d ∈ Declaration.raw t := raw ▸ List.mem_cons_self
  have nonempty : trim d.value ≠ [] := by simp [value, FontValue.text]
  obtain ⟨blanks, hb, text⟩ := Declaration.exists_blanks_of_mem_raw mem nonempty
  rw [value] at text
  have rewritten : typographyValue (FontShorthand.plainTemplates tokens) tokens d.property
      d.value = v.referenceText weight size height family ++ blanks := by
    rw [typographyValue, property, if_neg (by decide), if_pos rfl, text, n.substituteWith_text hb]
  refine ⟨_, substituted, ?_⟩
  rw [Declaration.parse_mapValues_of_fits, raw, List.map_singleton, rewritten,
    v.trim_referenceText _ _ _ _ hb, property]
  rw [raw, List.forall_mem_singleton, rewritten]
  exact n.fits_referenceText hb

variable {config : Config} (typography : config.has .typography)
  (prefixes : config.tokenPrefix = Config.default.tokenPrefix) (units : config.conversions = [])
include typography prefixes units

theorem isRewritten (plain : ¬ v.HidesWeight) : v.IsRewritten config t selector := by
  have unconverted : Conversion.convertSheet config.bases config.conversions t = t := by
    rw [units]
    rfl
  have font : ¬ Property.isSpacing "font".toList := by decide
  have made : ∃ r, Tokenization.ofText config t = .ok r := by
    apply Tokenization.exists_ofText_of_colorless
    · rw [unconverted, h]
      exact List.forall_mem_singleton.2 v.colors_text
    · rw [unconverted, h]
      exact fun _ => List.forall_mem_singleton.2 font
  obtain ⟨r, hr⟩ := made
  obtain ⟨palette, hp, same, converted, candidates, tokens, -⟩ := Tokenization.exists_parts hr
  rw [unconverted] at converted
  rw [converted, h, Candidates.collect, List.foldl_cons, List.foldl_nil,
    Candidates.add_font rfl v.colors_text] at candidates
  rw [candidates] at tokens hp
  obtain ⟨weight, size, height, family, n⟩ := v.exists_named plain typography
    (Config.namesPlainly_of_tokenPrefix prefixes) (.ofPalette palette)
  have colors := @isEmpty_colors _ config _ (Candidates.colors_addShorthand .empty v.text) hp
  have others (c : Category) (hc : c.feature ≠ .typography) : (r.tokens.table c).isEmpty := by
    rw [tokens]
    refine isEmpty_table ((v.keys_text plain c).trans ?_)
    cases c with
    | fontSizes | lineHeights | fontWeights | fontFamilies | letterSpacings => exact absurd rfl hc
    | spacing | borderWidths | radii | shadows | durations | easings => rfl
  rw [← tokens] at n colors
  obtain ⟨out, substituted, parsed⟩ := n.parse_substitute h typography colors others
  refine ⟨r, out, _, hr, ?_, n.referenced?_eq, parsed⟩
  rw [same, converted]
  exact substituted

/-- The value is picked apart and rewritten as it is written if and only if no weight is found that
is not there. -/
theorem tokenized_iff :
    (FontShorthand.parse v.text = v.parts ∧ v.IsRewritten config t selector) ↔ ¬ v.HidesWeight := by
  constructor
  · exact fun both => v.parse_text_iff.1 both.1
  · exact fun plain => ⟨v.parse_text_iff.2 plain, isRewritten h typography prefixes units plain⟩

end Sheet

/-- `700 12px/1.5 Inter, Arial` -/
def boldInter : FontValue where
  weight := some "700".toList
  size := ⟨false, "12".toList, none⟩
  unit := .px
  lineHeight := some ⟨false, "1".toList, some "5".toList⟩
  families := ["Inter".toList, "Arial".toList]
  weight_mem := by
    rintro w ⟨⟩
    decide +kernel
  size_plain := ⟨rfl, List.all_eq_true.1 (by decide), nofun, fun _ => List.cons_ne_nil _ _⟩
  unit_mem := .head _
  lineHeight_plain := by
    rintro l ⟨⟩
    refine ⟨rfl, List.all_eq_true.1 (by decide), ?_, nofun⟩
    rintro f ⟨⟩
    exact ⟨List.cons_ne_nil _ _, List.all_eq_true.1 (by decide)⟩
  families_ne := List.cons_ne_nil _ _
  family_names := by
    rw [List.forall_mem_cons, List.forall_mem_singleton]
    exact ⟨⟨List.cons_ne_nil _ _, List.all_eq_true.1 (by decide), by decide +kernel⟩,
      ⟨List.cons_ne_nil _ _, List.all_eq_true.1 (by decide), by decide +kernel⟩⟩

theorem tokenized_boldInter :
    let sheet := "a\x7bfont:700 12px/1.5 Inter, Arial\x7d".toList
    Declaration.parse sheet = [⟨['a'], "font".toList, boldInter.text⟩] ∧
      Config.default.has .typography ∧ Config.default.conversions = [] ∧
        FontShorthand.parse boldInter.text = boldInter.parts ∧
          boldInter.IsRewritten .default sheet ['a'] := by
  intro sheet
  have text : boldInter.text = "700 12px/1.5 Inter, Arial".toList := by decide +kernel
  have parsed : Declaration.parse sheet = [⟨['a'], "font".toList, boldInter.text⟩] := by
    rw [text]
    decide +kernel
  have plain : ¬ boldInter.HidesWeight := fun hides => nomatch hides.1
  have typography := Config.has_default .typography
  exact ⟨parsed, typography, rfl, (tokenized_iff parsed typography rfl rfl).2 plain⟩

/-- `400% Inter` -/
def shareInter : FontValue where
  weight := none
  size := ⟨false, "400".toList, none⟩
  unit := .percent
  lineHeight := none
  families := ["Inter".toList]
  weight_mem := nofun
  size_plain := ⟨rfl, List.all_eq_true.1 (by decide), nofun, fun _ => List.cons_ne_nil _ _⟩
  unit_mem := List.contains_iff_mem.1 rfl
  lineHeight_plain := nofun
  families_ne := List.cons_ne_nil _ _
  family_names := List.forall_mem_singleton.2
    ⟨List.cons_ne_nil _ _, List.all_eq_true.1 (by decide), by decide +kernel⟩

/-- The number of a size in percent is taken for a weight. -/
theorem not_tokenized_shareInter :
    let sheet := "a\x7bfont:400% Inter\x7d".toList
    Declaration.parse sheet = [⟨['a'], "font".toList, shareInter.text⟩] ∧
      ¬ (FontShorthand.parse shareInter.text = shareInter.parts ∧
        shareInter.IsRewritten .default sheet ['a']) := by
  have text : shareInter.text = "400% Inter".toList := by decide +kernel
  have read : (FontShorthand.parse shareInter.text).weight = some "400".toList := by
    decide +kernel
  refine ⟨?_, fun both => ?_⟩
  · rw [text]
    decide +kernel
  · rw [both.1] at read
    cases read

end FontValue

end DesignTokens
