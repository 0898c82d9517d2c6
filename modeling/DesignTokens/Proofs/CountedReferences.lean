import DesignTokens.Proofs.CalledReferences
import DesignTokens.Proofs.LonghandReferences
import DesignTokens.Proofs.MotionReferences

/-!
What is counted and what is replaced. The collector counts the lengths of spacing properties and the
durations and easings of motion properties with a recognizer for each, while a literal becomes a
reference only where it stands alone. So no length is left in a spacing property if and only if each
one stands alone or has one that does directly behind it; and neither a duration nor an easing is
left in a motion property where each one stands alone and none is in an open call of an easing. Main
statement: `counted_references`.
-/
namespace DesignTokens

open Text

/-! ### Values -/

theorem Text.Walk.trim_mapTokens_append {w : Recognizer} {P : Text → Text → Prop}
    {Q : Text → Text → Text → Prop} {names : Text → Option Text} {v blanks : Text}
    (h : Walk w P Q [] (trim v)) (hb : ∀ c ∈ blanks, isBlank c) :
    trim (mapTokens w (named names) (trim v) ++ blanks) = mapTokens w (named names) (trim v) := by
  by_cases empty : trim v = []
  · rw [empty]
    exact trim_eq_nil_of_blank hb
  · exact (h.isSolid_mapTokens (.trim empty)).trim_append hb

/-- Of some passes one matters for a property, where it is run or would leave the value. -/
theorem Pass.trim_applyAll_passesIf {condition : Bool} {f : Text → Text → Text}
    {before after : List Pass} {property v : Text} (hv : Value.Settled v)
    (first : ∀ p ∈ before, p.Leaves property) (last : ∀ p ∈ after, p.Leaves property)
    (off : condition = false → f property v = v) :
    trim (applyAll (before ++ (TokenTables.passesIf condition (.values f) ++ after)) property v) =
      trim (f property v) := by
  have fixed : condition = false → (values f).apply property v = v := fun none => by
    rwa [apply, off none]
  rw [applyAll_append, applyAll_of_leaves first hv, applyAll_append,
    applyAll_passesIf_of_fixed fixed, applyAll_of_leaves last (settled_apply hv), apply,
    Block.trim_valueOf, trim_cons_of_blank rfl]

namespace TokenTables

variable {tokens : TokenTables} {weights : List (Text × Template)} {features : List Feature}
  {property v : Text}

/-- The passes that compare whole values leave spacings and motions. -/
theorem leaves_wholePasses {f : Feature} (hf : f ∈ [Feature.spacing, .motion])
    (owned : f.owns property) : ∀ p ∈ tokens.wholePasses features, p.Leaves property := by
  have initials : [Feature.spacing, .motion].all fun f =>
      ["box-shadow".toList, "border-radius".toList].all fun name =>
        !name.head?.any f.initials.contains := by decide
  have families : [Feature.spacing, .motion] ⊆ Feature.families := by decide
  have other {name : Text} (hn : name ∈ ["box-shadow".toList, "border-radius".toList]) :
      decide (property = name) = false := by
    refine decide_eq_false ?_
    rintro rfl
    have first := List.all_eq_true.1 (List.all_eq_true.1 initials f hf) property hn
    rw [Feature.initial_of_owns (families hf) owned] at first
    cases first
  exact forall_mem_wholePasses (leaves_onFamily (other (by simp)))
    (leaves_onFamily (other (by simp))) features

/-- What the passes other than that for colors make of a spacing. -/
theorem trim_applyAll_spacing (owned : Property.isSpacing property)
    (enabled : features.contains .spacing) (hv : Value.Settled v) :
    trim (Pass.applyAll (tokens.wholePasses features ++ laterPasses weights tokens features)
      property v) = trim ((tokens.table .spacing).substituteLone .exact v) := by
  have leaves (f : Feature) (hf : f ∈ Feature.families) (hne : Feature.spacing ≠ f) :
      f.owns property = false := Feature.owns_eq_false (by decide) hf hne owned
  have run := @Pass.trim_applyAll_passesIf
    (tokens.enables features .spacing [.spacing])
    (onFamily Property.isSpacing ((tokens.table .spacing).substituteLone .exact))
    (tokens.wholePasses features ++ passesIf (features.contains .typography)
      (.values (typographyValue weights tokens)))
    (passesIf (tokens.enables features .borders [.borderWidths]) tokens.borderPass ++
      passesIf (tokens.enables features .motion [.durations, .easings]) tokens.motionPass)
    property v hv
    (List.forall_mem_append.2 ⟨leaves_wholePasses (f := .spacing) (by simp) owned,
      forall_mem_passesIf (leaves_typography (leaves .typography (by decide) (by decide)))⟩)
    (List.forall_mem_append.2
      ⟨forall_mem_passesIf (leaves_onFamily (leaves .borders (by decide) (by decide))),
        forall_mem_passesIf (leaves_onFamily (leaves .motion (by decide) (by decide)))⟩) ?_
  · rw [onFamily, if_pos owned] at run
    rw [← run, laterPasses, latePasses]
    simp only [List.append_assoc]
    rfl
  · intro off
    rw [enables, enabled, Bool.true_and, List.any_eq_false] at off
    rw [onFamily, if_pos owned]
    exact TokenMap.substituteLone_of_isEmpty (by simpa using off) .exact v

/-- What the passes other than that for colors make of a motion. -/
theorem trim_applyAll_motion (owned : Property.isMotion property)
    (enabled : features.contains .motion) (hv : Value.Settled v) :
    trim (Pass.applyAll (tokens.wholePasses features ++ laterPasses weights tokens features)
      property v) = trim ((tokens.table .easings).substituteLone .exact
        ((tokens.table .durations).substituteLone .exact v)) := by
  have leaves (f : Feature) (hf : f ∈ Feature.families) (hne : Feature.motion ≠ f) :
      f.owns property = false := Feature.owns_eq_false (by decide) hf hne owned
  have run := @Pass.trim_applyAll_passesIf
    (tokens.enables features .motion [.durations, .easings])
    (onFamily Property.isMotion fun value => (tokens.table .easings).substituteLone .exact
      ((tokens.table .durations).substituteLone .exact value))
    (tokens.wholePasses features ++ (passesIf (features.contains .typography)
      (.values (typographyValue weights tokens)) ++
        (passesIf (tokens.enables features .spacing [.spacing]) tokens.spacingPass ++
          passesIf (tokens.enables features .borders [.borderWidths]) tokens.borderPass)))
    [] property v hv
    (List.forall_mem_append.2 ⟨leaves_wholePasses (f := .motion) (by simp) owned,
      List.forall_mem_append.2
        ⟨forall_mem_passesIf (leaves_typography (leaves .typography (by decide) (by decide))),
          List.forall_mem_append.2
            ⟨forall_mem_passesIf (leaves_onFamily (leaves .spacing (by decide) (by decide))),
              forall_mem_passesIf (leaves_onFamily (leaves .borders (by decide) (by decide)))⟩⟩⟩)
    (List.forall_mem_nil _) ?_
  · rw [onFamily, if_pos owned, List.append_nil] at run
    rw [← run, laterPasses, latePasses]
    simp only [List.append_assoc]
    rfl
  · intro off
    rw [enables, enabled, Bool.true_and, List.any_eq_false] at off
    rw [onFamily, if_pos owned,
      TokenMap.substituteLone_of_isEmpty (by simpa using off .easings (by simp)),
      TokenMap.substituteLone_of_isEmpty (by simpa using off .durations (by simp))]

end TokenTables

/-! ### Sheets -/

/-- A declaration before and after a sheet is rewritten: no literal that is counted is left, on
conditions on the neighbours that the literals have before. -/
structure Declaration.Exhausts (d d' : Declaration) : Prop where
  selector_eq : d'.selector = d.selector
  property_eq : d'.property = d.property
  lengths_iff : Property.isSpacing d.property →
    (Length.literals d'.value = [] ↔ ∀ front token back,
      Takes Length.candidate d.value front token back → standsAlone front.getLast? back ∨
        ∃ token' back', Takes Length.candidate d.value (front ++ token) token' back' ∧
          standsAlone token.getLast? back')
  motions : Property.isMotion d.property →
    (∀ r ∈ [Duration.token, Easing.token], ∀ front token back, Takes r d.value front token back →
      standsAlone front.getLast? back ∧ ¬ Easing.OpenCall front) →
    Duration.literals d'.value = [] ∧ Easing.literals d'.value = []

namespace Tokenization

variable {config : Config} {t : Text} {r : Tokenization}

theorem measures_of_mem_spacing (h : ofText config t = .ok r) :
    ∀ e ∈ (r.tokens.table .spacing).entries, Measures Length.countedUnits e.1 := by
  intro e he
  obtain ⟨d, -, found⟩ := exists_finds h he
  generalize e.1 = literal at found ⊢
  cases found with
  | spacing _ hl =>
      obtain ⟨n, unit, hu, written, rfl⟩ := Length.exists_of_mem_literals hl
      exact ⟨n, unit.name, List.mem_map_of_mem hu, written, rfl⟩
  | whole hp => simp [Candidates.wholeValues] at hp

theorem measures_of_mem_durations (h : ofText config t = .ok r) :
    ∀ e ∈ (r.tokens.table .durations).entries, Measures Duration.unitNames e.1 := by
  intro e he
  obtain ⟨d, -, found⟩ := exists_finds h he
  generalize e.1 = literal at found ⊢
  cases found with
  | duration _ hl => exact Duration.exists_of_mem_literals hl
  | whole hp => simp [Candidates.wholeValues] at hp

theorem isEasing_of_mem_easings (h : ofText config t = .ok r) :
    ∀ e ∈ (r.tokens.table .easings).entries, Easing.IsEasing e.1 := by
  intro e he
  obtain ⟨d, -, found⟩ := exists_finds h he
  generalize e.1 = literal at found ⊢
  cases found with
  | easing _ hl => exact Easing.eq_of_mem_literals hl
  | whole hp => simp [Candidates.wholeValues] at hp

theorem mem_keys_of_finds (h : ofText config t = .ok r) {d : Declaration}
    (hd : d ∈ Declaration.parse r.converted) {c : Category} (enabled : config.has c.feature)
    {literal : Text} (found : Candidates.Finds d c literal) :
    literal ∈ (r.tokens.table c).keys := by
  obtain ⟨name, token⟩ := exists_token_of_finds h hd enabled found
  exact List.mem_map_of_mem (OrderedMap.mem_of_get?_eq_some token)

section

variable (h : ofText config t = .ok r)
  (prefixes : config.tokenPrefix = Config.default.tokenPrefix)
include h prefixes

theorem untimed_of_mem_table (c : Category) :
    ∀ e ∈ (r.tokens.table c).entries, TokenName.Untimed e.2 := by
  obtain ⟨palette, -, -, -, -, tokens, -⟩ := exists_parts h
  exact tokens ▸ TokenTables.untimed_table prefixes c

theorem literals_spacing_iff (enabled : config.has .spacing) {d : Declaration}
    (hd : d ∈ Declaration.raw r.converted) (owned : Property.isSpacing d.property) :
    Length.literals (trim (Pass.applyAll (r.tokens.wholePasses config.features ++
        TokenTables.laterPasses (FontShorthand.plainTemplates r.tokens) r.tokens config.features)
          d.property d.value)) = [] ↔ ∀ front token back,
      Takes Length.candidate (trim d.value) front token back → standsAlone front.getLast? back ∨
        ∃ token' back', Takes Length.candidate (trim d.value) (front ++ token) token' back' ∧
          standsAlone token.getLast? back' := by
  have settled := Declaration.settled_of_mem_raw d hd
  have kinds := measures_of_mem_spacing h
  have valid := valid_of_mem_table h prefixes .spacing
  have listed : ∀ token ∈ Length.literals (trim d.value), token ∈ (r.tokens.table .spacing).keys :=
    fun token counted => mem_keys_of_finds h (c := .spacing)
      (Declaration.parse_eq_map_raw r.converted ▸ List.mem_map_of_mem hd) enabled
      (.spacing (d := { d with value := trim d.value }) owned counted)
  obtain ⟨blanks, hb, text, -⟩ := settled.exists_blanks
  have same : trim ((r.tokens.table .spacing).substituteLone .exact d.value) =
      (r.tokens.table .spacing).substituteLone .exact (trim d.value) := by
    nth_rewrite 1 [text]
    rw [TokenMap.substituteLone_append_blanks (fun e he =>
        ⟨Length.areUnits.begins (kinds e he), Length.areUnits.solid (kinds e he)⟩) hb,
      Length.substituteLone_eq kinds valid, (Length.walk_alone _).trim_mapTokens_append hb]
  rw [TokenTables.trim_applyAll_spacing owned enabled settled, same]
  exact Length.literals_substituteLone_iff kinds valid listed

theorem literals_motion (enabled : config.has .motion) {d : Declaration}
    (hd : d ∈ Declaration.raw r.converted) (owned : Property.isMotion d.property)
    (ready : ∀ w ∈ [Duration.token, Easing.token], ∀ front token back,
      Takes w (trim d.value) front token back →
        standsAlone front.getLast? back ∧ ¬ Easing.OpenCall front) :
    let value := trim (Pass.applyAll (r.tokens.wholePasses config.features ++
      TokenTables.laterPasses (FontShorthand.plainTemplates r.tokens) r.tokens config.features)
        d.property d.value)
    Duration.literals value = [] ∧ Easing.literals value = [] := by
  have settled := Declaration.settled_of_mem_raw d hd
  have parsed : { d with value := trim d.value } ∈ Declaration.parse r.converted :=
    Declaration.parse_eq_map_raw r.converted ▸ List.mem_map_of_mem hd
  have timed := measures_of_mem_durations h
  have eased := isEasing_of_mem_easings h
  have names := List.forall_mem_append.2
    ⟨valid_of_mem_table h prefixes .durations, valid_of_mem_table h prefixes .easings⟩
  have untimed := List.forall_mem_append.2
    ⟨untimed_of_mem_table h prefixes .durations, untimed_of_mem_table h prefixes .easings⟩
  have listed : ∀ text ∈ Duration.literals (trim d.value), text ∈ (r.tokens.table .durations).keys :=
    fun text counted =>
      mem_keys_of_finds h parsed (c := .durations) enabled (.duration owned counted)
  have listed' : ∀ text ∈ Easing.literals (trim d.value), text ∈ (r.tokens.table .easings).keys :=
    fun text counted =>
      mem_keys_of_finds h parsed (c := .easings) enabled (.easing owned counted)
  obtain ⟨blanks, hb, text, -⟩ := settled.exists_blanks
  have same : trim ((r.tokens.table .easings).substituteLone .exact
      ((r.tokens.table .durations).substituteLone .exact d.value)) =
        (r.tokens.table .easings).substituteLone .exact
          ((r.tokens.table .durations).substituteLone .exact (trim d.value)) := by
    nth_rewrite 1 [text]
    rw [TokenMap.substituteLone_append_blanks (fun e he =>
        ⟨Duration.areUnits.begins (timed e he), Duration.areUnits.solid (timed e he)⟩) hb,
      TokenMap.substituteLone_append_blanks (fun e he =>
        ⟨Easing.begins (eased e he), Easing.solid (eased e he)⟩) hb,
      Motion.substitute_eq timed eased names listed listed' ready,
      (Motion.walk_value listed listed' ready).trim_mapTokens_append hb]
  dsimp only
  rw [TokenTables.trim_applyAll_motion owned enabled settled, same]
  exact Motion.literals_substitute timed eased names listed listed' ready untimed

/-- With the default prefixes, and with spacing and motion but not with colors, no length that is
counted is left in a spacing property if and only if each one stands alone or has one that does
directly behind it. No duration and no easing is left in a motion property if each one stands alone
and none is in an open call of an easing. -/
theorem counted_references (spacing : config.has .spacing) (motion : config.has .motion)
    (colorless : config.has .colors = false) :
    ∃ out, r.tokens.substitute r.config.features r.converted = .ok out ∧
      List.Forall₂ Declaration.Exhausts (Declaration.parse r.converted)
        (Declaration.parse out) := by
  obtain ⟨out, rewritten, parsed⟩ := exists_substitute_of_colorless h prefixes colorless
  refine ⟨out, rewritten, ?_⟩
  rw [parsed, Declaration.parse_eq_map_raw, List.forall₂_map_left_iff, List.forall₂_map_right_iff,
    List.forall₂_same]
  intro d hd
  exact ⟨rfl, rfl, literals_spacing_iff h prefixes spacing hd,
    literals_motion h prefixes motion hd⟩

end

/-- Settings for spacing and motion only. -/
def paced : Config := { features := [.spacing, .motion] }

theorem exists_ofText_paced {t : Text}
    (ht : ∀ d ∈ Declaration.parse t, Color.literals d.value = []) :
    ∃ r, ofText paced t = .ok r :=
  exists_ofText_of_colorless ht fun prefers => Bool.noConfusion prefers

/-- A sheet with lengths, a duration and an easing that all stand alone. -/
def easedSlide : Text :=
  "a\x7bmargin:4px 1rem;animation:slide 1s ease-in\x7d".toList

theorem counted_references_easedSlide : ∃ r, ofText paced easedSlide = .ok r ∧
    paced.tokenPrefix = Config.default.tokenPrefix ∧ paced.has .spacing ∧ paced.has .motion ∧
    paced.has .colors = false ∧
    (∀ w ∈ [Duration.token, Easing.token], ∀ front token back,
      Takes w "slide 1s ease-in".toList front token back →
        standsAlone front.getLast? back ∧ ¬ Easing.OpenCall front) ∧
    ∃ out, r.tokens.substitute r.config.features r.converted = .ok out ∧
      List.Forall₂ Declaration.Exhausts (Declaration.parse r.converted)
        (Declaration.parse out) := by
  have parsed : Declaration.parse easedSlide =
      [⟨"a".toList, "margin".toList, "4px 1rem".toList⟩,
        ⟨"a".toList, "animation".toList, "slide 1s ease-in".toList⟩] := by cbv
  obtain ⟨r, h⟩ := @exists_ofText_paced easedSlide (by
    rw [parsed]
    decide +kernel)
  refine ⟨r, h, rfl, rfl, rfl, rfl, fun w hw front token back taken => ?_,
    counted_references h rfl rfl rfl rfl⟩
  have alone : [Duration.token, Easing.token].all fun w =>
      allTaken w (fun front _ back => standsAlone front.getLast? back)
        "slide 1s ease-in".toList := by decide +kernel
  have flat : '(' ∉ "slide 1s ease-in".toList := by decide
  refine ⟨allTaken_iff.1 (List.all_eq_true.1 alone w hw) _ _ _ taken, fun opened => flat ?_⟩
  rw [taken.text_eq]
  exact List.mem_append_left _ opened.open_mem

/-- A sheet with an animation whose name ends like a duration. -/
def numberedSlide : Text := "a\x7banimation:slide-2s 1s\x7d".toList

/-- The duration at the end of the name is counted, and it is not replaced. -/
theorem literals_numberedSlide : ∃ r out, ofText paced numberedSlide = .ok r ∧
    r.tokens.substitute r.config.features r.converted = .ok out ∧
    Declaration.parse out =
      [⟨"a".toList, "animation".toList, "slide-2s var(--duration-1)".toList⟩] ∧
    Duration.literals "slide-2s var(--duration-1)".toList = ["2s".toList] := by
  have parsed : Declaration.parse numberedSlide =
      [⟨"a".toList, "animation".toList, "slide-2s 1s".toList⟩] := by cbv
  have raw : Declaration.raw numberedSlide =
      [⟨"a".toList, "animation".toList, "slide-2s 1s".toList⟩] := by cbv
  obtain ⟨r, h⟩ := @exists_ofText_paced numberedSlide (by
    rw [parsed]
    decide +kernel)
  obtain ⟨palette, -, -, converted, candidates, tokens, -⟩ := exists_parts h
  have same : r.converted = numberedSlide := converted
  obtain ⟨out, rewritten, parsed_out⟩ := exists_substitute_of_colorless h rfl rfl
  have durations : (r.tokens.table .durations).entries =
      [("1s".toList, "--duration-1".toList), ("2s".toList, "--duration-2".toList)] := by
    rw [tokens, TokenTables.table_ofCandidates, candidates, same, parsed]
    decide +kernel
  have easings : (r.tokens.table .easings).isEmpty := by
    rw [tokens, TokenTables.table_ofCandidates, candidates, same, parsed]
    decide +kernel
  have motion : Property.isMotion "animation".toList := by decide
  have settled : Value.Settled "slide-2s 1s".toList := Value.settled_cons rfl _
  refine ⟨r, out, h, rewritten, ?_, by decide +kernel⟩
  rw [parsed_out, same, raw, List.map_singleton]
  dsimp only
  rw [TokenTables.trim_applyAll_motion motion rfl settled, TokenMap.substituteLone_of_isEmpty easings,
    TokenMap.substituteLone, TokenMap.byLength, durations, List.mergeSort_of_pairwise (by decide)]
  decide +kernel

end Tokenization

end DesignTokens
