import DesignTokens.Proofs.KeptReferences
import DesignTokens.Proofs.PassedValues
import DesignTokens.Proofs.SpacedValues
import DesignTokens.Proofs.TokenizationFaults

/-!
Values that are compared as wholes. A shadow, a radius or a list of font families is collected in
normal form and looked up in normal form, and blanks around a value do not matter to this form. So
without the pass for colors each such value becomes the reference of its token. The width tokens of
borders are also looked for in radii, but a length occurs in no reference. Main statement:
`whole_references`.
-/
namespace DesignTokens

open Text Value

/-- A category of literals that are compared as wholes, with its property and its normal form. -/
inductive Category.Compares : Category → Text → (Text → Text) → Prop
  | shadows : Compares .shadows "box-shadow".toList Value.shadow
  | radii : Compares .radii "border-radius".toList Value.radius
  | fontFamilies : Compares .fontFamilies "font-family".toList Value.fontFamily

theorem Category.Compares.trim_eq {c : Category} {property : Text} {normal : Text → Text}
    (h : Compares c property normal) (v : Text) : normal (trim v) = normal v := by
  cases h with
  | shadows => exact shadow_trim v
  | radii => exact radius_trim v
  | fontFamilies => exact fontFamily_trim v

/-- The first declaration rewritten: a value that is compared as a whole has become the reference of
its token, and a keyword for font families has stayed. -/
structure Declaration.RefersWhole (tokens : TokenTables) (config : Config) (d d' : Declaration) :
    Prop where
  selector_eq : d'.selector = d.selector
  property_eq : d'.property = d.property
  keyword : d.property = "font-family".toList → isWideKeyword d.value → d'.value = d.value
  reference : ∀ (c : Category) (normal : Text → Text), c.Compares d.property normal →
    config.has c.feature → (c = .fontFamilies → isWideKeyword d.value = false) →
      ∃ name, (tokens.table c).get? (normal d.value) = some name ∧ d'.value = reference name

namespace TokenMap

variable {m : TokenMap} {normal : Text → Text} {v name : Text}

theorem replaceWhole_of_get? (h : m.get? (normal v) = some name) (hne : name ≠ []) :
    m.replaceWhole normal v = reference name := by
  have filled : name.isEmpty = false := by simpa using hne
  rw [replaceWhole, reference?, h, Option.filter_some, filled]
  rfl

theorem replaceWhole_of_none (h : m.get? (normal v) = none) : m.replaceWhole normal v = v := by
  rw [replaceWhole, reference?, h]
  rfl

/-- Literals that are apart from references occur in none of them. -/
theorem substituteLone_reference (hm : ∀ e ∈ m.entries, Separate e.1) (hv : TokenName.Valid name) :
    m.substituteLone .exact (reference name) = reference name := by
  have kept {e : Text × Text} (he : Separate e.1) :
      replaceLone .exact e.1 (reference e.2) (reference name) = reference name := by
    have spares : Spares [name] (loneToken .exact e.1) := he.spares (by simpa using hv)
    have passed := @spares.replaceFrom_reference _ _ (reference e.2) name (by simp) none []
    rw [List.append_nil] at passed
    rw [replaceLone, if_neg (by simpa using he.ne_nil)]
    exact passed.trans (List.append_nil _)
  refine List.foldlRecOn (motive := (· = reference name)) m.byLength _ rfl fun v same e he => ?_
  rw [same]
  exact kept (hm e (mem_byLength.1 he))

end TokenMap

namespace Pass

variable {property v name : Text} {p : Pass} {before after : List Pass} {condition : Bool}

theorem apply_values {f : Text → Text → Text} (h : f property v = reference name) :
    (values f).apply property v = reference name := by
  rw [apply, h]
  exact settled_reference name

theorem Leaves.keeps_reference {passes : List Pass} (h : ∀ p ∈ passes, p.Leaves property)
    (name : Text) : ∀ p ∈ passes, p.apply property (reference name) = reference name :=
  fun p hp => (h p hp).apply_eq (settled_reference name)

/-- One pass puts in a reference; those before it leave the property, those after it the reference.
-/
theorem applyAll_reference (hv : Settled v) (hb : ∀ q ∈ before, q.Leaves property)
    (run : condition) (hp : p.apply property v = reference name)
    (ha : ∀ q ∈ after, q.apply property (reference name) = reference name) :
    applyAll (before ++ (TokenTables.passesIf condition p ++ after)) property v =
      reference name := by
  rw [applyAll_passesIf_append hv hb run, hp, applyAll_of_fixed ha]

end Pass

namespace TokenTables

variable {tokens : TokenTables} {weights : List (Text × Template)} {features : List Feature}

theorem leaves_typography_of {property : Text}
    (h : property = "box-shadow".toList ∨ property = "border-radius".toList) :
    (Pass.values (typographyValue weights tokens)).Leaves property := by
  intro v
  rcases h with rfl | rfl <;> rfl

theorem enables_of_get? {c : Category} {literal name : Text} (enabled : features.contains c.feature)
    (token : (tokens.table c).get? literal = some name) :
    tokens.enables features c.feature [c] := by
  have filled : (tokens.table c).entries ≠ [] :=
    List.ne_nil_of_mem (OrderedMap.mem_of_get?_eq_some token)
  rw [enables, enabled, List.any_cons, OrderedMap.isEmpty, List.isEmpty_eq_false_iff.2 filled]
  rfl

theorem onFamily_of {family : Text → Bool} {f : Text → Text} {property v : Text}
    (h : family property) : onFamily family f property v = f v := if_pos h

section Applied

variable {v : Text} (hv : Settled v)
include hv

/-- What the passes other than that for colors make of a value that has a token as a whole. -/
theorem applyAll_of_compares {c : Category} {property name : Text} {normal : Text → Text}
    (borders : ∀ e ∈ (tokens.table .borderWidths).entries, Separate e.1)
    (hc : c.Compares property normal) (enabled : features.contains c.feature)
    (token : (tokens.table c).get? (normal v) = some name) (hn : TokenName.Valid name) :
    Pass.applyAll (tokens.wholePasses features ++ laterPasses weights tokens features) property v =
      reference name := by
  have whole := TokenMap.replaceWhole_of_get? token hn.ne_nil
  have active := enables_of_get? enabled token
  cases hc with
  | shadows =>
      have put : tokens.shadowPass.apply "box-shadow".toList v = reference name :=
        Pass.apply_values ((onFamily_of rfl).trans whole)
      have rest : ∀ p ∈ passesIf (tokens.enables features .radius [.radii]) tokens.radiusPass ++
          laterPasses weights tokens features, p.Leaves "box-shadow".toList :=
        List.forall_mem_append.2 ⟨forall_mem_passesIf (leaves_onFamily (by decide)),
          forall_mem_laterPasses (leaves_typography_of (.inl rfl)) (leaves_onFamily (by decide))
            (leaves_onFamily (by decide)) (leaves_onFamily (by decide)) features⟩
      rw [wholePasses, List.append_assoc]
      exact @Pass.applyAll_reference _ _ _ _ [] _ _ hv nofun active put
        (Pass.Leaves.keeps_reference rest name)
  | radii =>
      have put : tokens.radiusPass.apply "border-radius".toList v = reference name :=
        Pass.apply_values ((onFamily_of rfl).trans whole)
      have before : ∀ p ∈ passesIf (tokens.enables features .shadows [.shadows]) tokens.shadowPass,
          p.Leaves "border-radius".toList := forall_mem_passesIf (leaves_onFamily (by decide))
      -- The border pass takes a radius for the width of a border.
      have bordered : tokens.borderPass.apply "border-radius".toList (reference name) =
          reference name := Pass.apply_values
        ((onFamily_of rfl).trans (TokenMap.substituteLone_reference borders hn))
      have left {p : Pass} (h : p.Leaves "border-radius".toList) :
          p.apply "border-radius".toList (reference name) = reference name :=
        h.apply_eq (settled_reference name)
      rw [wholePasses, List.append_assoc]
      exact Pass.applyAll_reference hv before active put
        (forall_mem_laterPasses (left (leaves_typography_of (.inr rfl)))
          (left (leaves_onFamily (by decide))) bordered (left (leaves_onFamily (by decide)))
          features)
  | fontFamilies =>
      have put : (Pass.values (typographyValue weights tokens)).apply "font-family".toList v =
          reference name := Pass.apply_values whole
      have before := @forall_mem_wholePasses tokens (Pass.Leaves "font-family".toList)
        (leaves_onFamily (by decide)) (leaves_onFamily (by decide)) features
      have rest := @forall_mem_latePasses tokens (Pass.Leaves "font-family".toList)
        (leaves_onFamily (by decide)) (leaves_onFamily (by decide)) (leaves_onFamily (by decide))
        features
      exact Pass.applyAll_reference hv before enabled put (Pass.Leaves.keeps_reference rest name)

theorem applyAll_family_of_none (none : (tokens.table .fontFamilies).get? (fontFamily v) = none) :
    Pass.applyAll (tokens.wholePasses features ++ laterPasses weights tokens features)
      "font-family".toList v = v := by
  have same : (Pass.values (typographyValue weights tokens)).apply "font-family".toList v = v := by
    have kept : typographyValue weights tokens "font-family".toList v = v :=
      TokenMap.replaceWhole_of_none none
    rw [Pass.apply, kept]
    exact hv
  have left {p : Pass} (h : p.Leaves "font-family".toList) : p.apply "font-family".toList v = v :=
    h.apply_eq hv
  apply Pass.applyAll_of_fixed
  exact List.forall_mem_append.2 ⟨forall_mem_wholePasses (left (leaves_onFamily (by decide)))
      (left (leaves_onFamily (by decide))) features,
    forall_mem_laterPasses same (left (leaves_onFamily (by decide)))
      (left (leaves_onFamily (by decide))) (left (leaves_onFamily (by decide))) features⟩

end Applied

/-- Without the pass for colors the passes before that for typography compare whole values. -/
theorem earlyPasses_of_colorless (h : features.contains .colors = false) :
    tokens.earlyPasses features = tokens.wholePasses features := by
  rw [earlyPasses, h, wholePasses]
  exact List.append_nil _

end TokenTables

namespace Tokenization

variable {config : Config} {t : Text} {r : Tokenization}

/-- What is found in a declaration for an enabled category has a token. -/
theorem exists_token_of_finds (h : ofText config t = .ok r) {d : Declaration}
    (hd : d ∈ Declaration.parse r.converted) {c : Category} (enabled : config.has c.feature)
    {literal : Text} (found : Candidates.Finds d c literal) :
    ∃ name, (r.tokens.table c).get? literal = some name := by
  obtain ⟨palette, -, -, -, candidates, tokens, -⟩ := exists_parts h
  apply OrderedMap.exists_get?_of_mem_keys
  rw [tokens, (TokenTables.keys_table_perm enabled).mem_iff, candidates,
    Candidates.mem_table_collect_iff]
  exact ⟨d, hd, found⟩

/-- A value that is compared as a whole has a token, unless it is a keyword. -/
theorem exists_token (h : ofText config t = .ok r) {d : Declaration}
    (hd : d ∈ Declaration.parse r.converted) {c : Category} {normal : Text → Text}
    (hc : c.Compares d.property normal) (enabled : config.has c.feature)
    (plain : c = .fontFamilies → isWideKeyword d.value = false) :
    ∃ name, (r.tokens.table c).get? (normal d.value) = some name := by
  refine exists_token_of_finds h hd enabled ?_
  generalize hp : d.property = property at hc
  cases hc with
  | shadows => exact .shadow hp
  | radii => exact .radius hp
  | fontFamilies =>
      refine .family hp ?_
      rw [isWideKeyword_fontFamily]
      exact plain rfl

/-- No keyword for font families has a token. -/
theorem get?_fontFamily_of_isWideKeyword (h : ofText config t = .ok r) {v : Text}
    (hv : isWideKeyword v) : (r.tokens.table .fontFamilies).get? (fontFamily v) = none := by
  rw [Option.eq_none_iff_forall_ne_some]
  intro name token
  obtain ⟨d, -, found⟩ := exists_finds h (OrderedMap.mem_of_get?_eq_some token)
  have plain := found.not_isWideKeyword
  rw [isWideKeyword_fontFamily, hv] at plain
  cases plain

theorem valid_of_mem_table (h : ofText config t = .ok r)
    (prefixes : config.tokenPrefix = Config.default.tokenPrefix) (c : Category) :
    ∀ e ∈ (r.tokens.table c).entries, TokenName.Valid e.2 := by
  obtain ⟨palette, -, -, -, -, tokens, -⟩ := exists_parts h
  exact tokens ▸ TokenTables.valid_table (Config.namesPlainly_of_tokenPrefix prefixes) c

/-- With the default prefixes and without the feature for colors, a sheet is rewritten value by
value. -/
theorem exists_substitute_of_colorless (h : ofText config t = .ok r)
    (prefixes : config.tokenPrefix = Config.default.tokenPrefix)
    (colorless : config.has .colors = false) :
    let passes := r.tokens.wholePasses config.features ++ TokenTables.laterPasses
      (FontShorthand.plainTemplates r.tokens) r.tokens config.features
    ∃ out, r.tokens.substitute r.config.features r.converted = .ok out ∧
      Declaration.parse out = (Declaration.raw r.converted).map fun d =>
        { d with value := trim (Pass.applyAll passes d.property d.value) } := by
  obtain ⟨palette, -, settings, -⟩ := exists_parts h
  have valid := valid_of_mem_table h prefixes
  have fits := fits_reference (TokenTables.forall_mem_tableNames valid)
  have inserts := List.forall_mem_append.2
    ⟨TokenTables.inserts_wholePasses r.tokens.mem_tableNames config.features,
      TokenTables.inserts_laterPasses r.tokens.mem_tableNames config.features⟩
  have weights := FontShorthand.weightTemplates_eq_of_valid (valid .fontWeights)
  intro passes
  refine ⟨_, TokenTables.substitute_eq_runAll weights _ _, ?_⟩
  rw [settings, TokenTables.earlyPasses_of_colorless colorless]
  exact Pass.parse_runAll fits inserts _

/-- With the default prefixes and without the feature for colors, every shadow, radius and list of
font families of a sheet that is tokenized becomes the reference of its token. -/
theorem whole_references (h : ofText config t = .ok r)
    (prefixes : config.tokenPrefix = Config.default.tokenPrefix)
    (colorless : config.has .colors = false) :
    ∃ out, r.tokens.substitute r.config.features r.converted = .ok out ∧
      List.Forall₂ (Declaration.RefersWhole r.tokens config) (Declaration.parse r.converted)
        (Declaration.parse out) := by
  obtain ⟨palette, -, -, -, candidates, tokens, -⟩ := exists_parts h
  have valid (c : Category) : ∀ e ∈ (r.tokens.table c).entries, TokenName.Valid e.2 :=
    tokens ▸ TokenTables.valid_table (Config.namesPlainly_of_tokenPrefix prefixes) c
  have borders : ∀ e ∈ (r.tokens.table .borderWidths).entries, Separate e.1 := by
    intro e he
    rw [tokens, TokenTables.table_ofCandidates, candidates] at he
    obtain ⟨d, -, found⟩ := (Candidates.within_collect _).tables _ _
      (TokenTables.mem_keys_of_mem_nameCategory he)
    generalize e.1 = literal at found ⊢
    cases found with
    | borderWidth _ hl => exact .of_length (List.mem_of_head? hl)
    | whole hp => simp [Candidates.wholeValues] at hp
  obtain ⟨out, rewritten, parsed⟩ := exists_substitute_of_colorless h prefixes colorless
  refine ⟨out, rewritten, ?_⟩
  rw [parsed, Declaration.parse_eq_map_raw, List.forall₂_map_left_iff, List.forall₂_map_right_iff,
    List.forall₂_same]
  intro d hd
  have settled := Declaration.settled_of_mem_raw d hd
  refine ⟨rfl, rfl, fun family keyword => ?_, fun c normal hc enabled plain => ?_⟩
  · have none := get?_fontFamily_of_isWideKeyword h keyword
    rw [fontFamily_trim] at none
    have property : d.property = "font-family".toList := family
    change trim (Pass.applyAll _ d.property d.value) = trim d.value
    rw [property, TokenTables.applyAll_family_of_none settled none]
  · obtain ⟨name, token⟩ := exists_token h
      (Declaration.parse_eq_map_raw r.converted ▸ List.mem_map_of_mem hd) hc enabled plain
    refine ⟨name, token, ?_⟩
    rw [hc.trim_eq] at token
    have name_valid := valid c _ (OrderedMap.mem_of_get?_eq_some token)
    change trim (Pass.applyAll _ d.property d.value) = reference name
    rw [TokenTables.applyAll_of_compares settled borders hc enabled token name_valid,
      trim_reference]

/-- Settings without the feature for colors. -/
def colorless : Config := { features := [.typography, .borders, .radius, .shadows] }

/-- A sheet with a radius that is the width of a border too, and a keyword for font families. -/
def spacedRadius : Text :=
  "a\x7bborder-radius: 4px ;border-width:4px;box-shadow:0  1px 2px;font-family:Inherit\x7d".toList

theorem whole_references_spacedRadius : ∃ r, ofText colorless spacedRadius = .ok r ∧
    colorless.tokenPrefix = Config.default.tokenPrefix ∧ colorless.has .colors = false ∧
    ∃ out, r.tokens.substitute r.config.features r.converted = .ok out ∧
      List.Forall₂ (Declaration.RefersWhole r.tokens colorless) (Declaration.parse r.converted)
        (Declaration.parse out) := by
  have parsed : Declaration.parse spacedRadius =
      [⟨"a".toList, "border-radius".toList, "4px".toList⟩,
        ⟨"a".toList, "border-width".toList, "4px".toList⟩,
        ⟨"a".toList, "box-shadow".toList, "0  1px 2px".toList⟩,
        ⟨"a".toList, "font-family".toList, "Inherit".toList⟩] := by cbv
  obtain ⟨r, h⟩ : ∃ r, ofText colorless spacedRadius = .ok r := by
    refine exists_ofText_of_colorless ?_ fun prefers => Bool.noConfusion prefers
    change ∀ d ∈ Declaration.parse spacedRadius, _
    rw [parsed]
    decide +kernel
  exact ⟨r, h, rfl, rfl, whole_references h rfl rfl⟩

end Tokenization

end DesignTokens
