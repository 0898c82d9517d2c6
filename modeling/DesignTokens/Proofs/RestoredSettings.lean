import DesignTokens.Proofs.KnownUnits
import DesignTokens.Proofs.NormalForms
import DesignTokens.Token.Manifest

/-!
Settings that are read back from a manifest. What options make of a configuration is canonical: the
features are those of some names, in order, and conversions are between two different known units.
So each setting is written as a text that is read as the same setting, in lists of any length, and a
list of conversions can be written as one text with commas too. Main statement:
`overlay_restoring`.
-/
namespace DesignTokens

/-! ### Settings as they are written -/

theorem DarkMethod.parse_name (method : DarkMethod) :
    parse (.text method.name.toList) = .ok method := by
  cases method <;> rfl

namespace Feature

theorem name_injective {f g : Feature} (h : f.name.toList = g.name.toList) : f = g := by
  revert h
  cases f <;> cases g <;> decide

theorem nameOf_name (f : Feature) : nameOf (.text f.name.toList) = f.name.toList := by
  cases f <;> rfl

/-- Features in their order, each of them once. -/
def IsOrdered (features : List Feature) : Prop := features = all.filter features.contains

theorem isOrdered_all : IsOrdered all := by
  rw [IsOrdered]
  decide

theorem isOrdered_ofNames (names : List Text) : IsOrdered (ofNames names) := by
  refine List.filter_congr fun f hf => ?_
  have listed : f ∈ ofNames names ↔ f ∈ all ∧ names.contains f.name.toList := List.mem_filter
  rw [Bool.eq_iff_iff, List.contains_iff_mem (a := f), listed]
  exact (and_iff_right hf).symm

theorem isOrdered_of_parse {value : Json} {features : List Feature}
    (h : parse value = .ok features) : IsOrdered features := by
  unfold parse at h
  split at h
  · cases h
    exact isOrdered_all
  · split_ifs at h
    · cases h
      exact isOrdered_all
    · cases h
      exact isOrdered_ofNames _
  · cases hitems : value.toItems with
    | error e =>
        rw [hitems] at h
        cases h
    | ok items =>
        rw [hitems] at h
        cases h
        exact isOrdered_ofNames _

theorem ofNames_name {features : List Feature} (h : IsOrdered features) :
    ofNames (features.map fun f => f.name.toList) = features := by
  conv_rhs => rw [h]
  refine List.filter_congr fun f _ => ?_
  rw [Bool.eq_iff_iff, List.contains_iff_mem, List.contains_iff_mem, List.mem_map]
  constructor
  · rintro ⟨g, hg, same⟩
    exact name_injective same ▸ hg
  · intro hf
    exact ⟨f, hf, rfl⟩

/-- The names of features are read as the features. -/
theorem parse_names {features : List Feature} (h : IsOrdered features) :
    parse (.array (features.map fun f => .text f.name.toList)) = .ok features := by
  have names : (features.map fun f => Json.text f.name.toList).map nameOf =
      features.map fun f => f.name.toList := by
    rw [List.map_map]
    exact List.map_congr_left fun f _ => nameOf_name f
  rw [parse]
  · change Except.ok (ofNames ((features.map fun f => Json.text f.name.toList).map nameOf)) = _
    rw [names, ofNames_name h]
  · exact nofun
  · exact nofun

end Feature

namespace LengthUnit

/-- The names of known units, with the unit that is read from each. -/
theorem ofName?_name {u : LengthUnit} (h : u ∈ known) :
    ofName? (Text.lower (Text.trim u.name)) = some u ∧ '>' ∉ u.name ∧ ',' ∉ u.name := by
  simp only [known, List.mem_cons, List.not_mem_nil, or_false] at h
  obtain rfl | rfl | rfl | rfl | rfl | rfl | rfl := h <;> decide

end LengthUnit

namespace Conversion

variable {c : Conversion}

theorem IsSupported.ofText?_text (h : c.IsSupported) : ofText? c.text = some c := by
  obtain ⟨source, free, -⟩ := LengthUnit.ofName?_name h.source
  obtain ⟨target, -, -⟩ := LengthUnit.ofName?_name h.target
  rw [ofText?, text, Text.cut_append_cons free]
  change ofNames? c.source.name c.target.name = some c
  rw [ofNames?, source, target]
  exact if_neg h.distinct

theorem IsSupported.comma_notMem_text (h : c.IsSupported) : ',' ∉ c.text := by
  obtain ⟨-, -, source⟩ := LengthUnit.ofName?_name h.source
  obtain ⟨-, -, target⟩ := LengthUnit.ofName?_name h.target
  rw [text, List.mem_append, List.mem_cons]
  rintro (first | arrow | second)
  · exact source first
  · exact absurd arrow (by decide)
  · exact target second

variable {chain : List Conversion}

/-- The texts of conversions are read as the conversions. -/
theorem parse_texts (h : ∀ c ∈ chain, c.IsSupported) :
    parse (.array (chain.map fun c => .text c.text)) = .ok chain := by
  have read : (chain.map fun c => Json.text c.text).mapM ofItem = .ok (chain.map some) := by
    induction chain with
    | nil => rfl
    | cons c chain ih =>
        have first : ofItem (.text c.text) = .ok (some c) := by
          change Except.ok (ofText? (CodeText.ofText c.text).readable) = _
          rw [CodeText.readable_ofText, (h c List.mem_cons_self).ofText?_text]
        have rest := ih fun c hc => h c (.tail _ hc)
        rw [List.map_cons, List.mapM_cons, first]
        exact bind_eq_ok rfl (bind_eq_ok rest rfl)
  have whole : (chain.map some).filterMap id = chain := by
    rw [List.filterMap_map]
    exact List.filterMap_some
  unfold parse
  split
  · rename_i unset
    have empty : chain = [] := by simpa [Json.isSet] using unset
    rw [empty]
  · change ((chain.map fun c => Json.text c.text).mapM ofItem >>= fun read =>
      .ok (read.filterMap id)) = _
    exact bind_eq_ok read (congrArg _ whole)

/-- So is one text of all of them. -/
theorem parse_join (h : ∀ c ∈ chain, c.IsSupported) :
    parse (.text (Text.join [','] (chain.map text))) = .ok chain := by
  have read : (chain.map text).filterMap ofText? = chain := by
    rw [List.filterMap_map]
    exact (List.filterMap_congr fun c hc => (h c hc).ofText?_text).trans List.filterMap_some
  cases chain with
  | nil => rfl
  | cons c chain =>
      have plain : ∀ t ∈ c.text :: chain.map text, ',' ∉ t := by
        rw [← List.map_cons, List.forall_mem_map]
        exact fun c hc => (h c hc).comma_notMem_text
      have pieces : Text.splitOn ',' (Text.join [','] ((c :: chain).map text)) =
          (c :: chain).map text := by
        rw [List.map_cons, Text.splitOn_join List.not_mem_nil plain]
        exact congrArg _ (List.map_id _)
      unfold parse
      split
      · rename_i unset
        have empty : Text.join [','] ((c :: chain).map text) = [] := by
          simpa [Json.isSet, Json.text, CodeText.ofText] using unset
        rw [empty] at pieces
        have first : [] = c.source.name ++ '>' :: c.target.name := (List.cons.inj pieces).1
        simp at first
      · change Except.ok ((Text.splitOn ',' (CodeText.ofText _).readable).filterMap ofText?) = _
        rw [CodeText.readable_ofText, pieces, read]

end Conversion

/-! ### Configurations made by options -/

namespace Config

/-- Settings that options can give. -/
structure IsReadable (c : Config) : Prop where
  features : Feature.IsOrdered c.features
  conversions : ∀ p ∈ c.conversions, p.IsSupported

theorem isReadable_default : default.IsReadable := ⟨Feature.isOrdered_all, fun _ h => nomatch h⟩

/-- Options keep the settings among those that options can give. -/
theorem IsReadable.overlay {c config : Config} (hc : c.IsReadable) {options : Json}
    (h : Config.overlay options c = .ok config) : config.IsReadable := by
  obtain ⟨members, reads⟩ := exists_overlays h
  have features : Feature.IsOrdered config.features :=
    Reads.imp reads.features hc.features fun _ _ => Feature.isOrdered_of_parse
  have conversions : ∀ p ∈ config.conversions, p.IsSupported :=
    Reads.imp (P := fun chain => ∀ p ∈ chain, p.IsSupported) reads.conversions hc.conversions
      fun _ _ => Conversion.isSupported_of_parse
  exact ⟨features, conversions⟩

/-- So do any number of layers of options. -/
theorem IsReadable.layers {c config : Config} (hc : c.IsReadable) {layers : List Json}
    (h : layers.foldlM (fun c options => c.overlay options) c = .ok config) :
    config.IsReadable := by
  induction layers generalizing c with
  | nil =>
      cases h
      exact hc
  | cons options layers ih =>
      rw [List.foldlM_cons] at h
      obtain ⟨next, step, rest⟩ := exists_of_bind_eq_ok h
      exact ih (hc.overlay step) rest

end Config

/-! ### The settings of a manifest -/

namespace Json

/-- The value of a member of an object, null if it is not there. -/
def member (name : String) : Json → Json
  | object members => (members.lookup (.ofText name.toList)).getD null
  | _ => null

/-- A list of texts as one text with commas. -/
def withCommas : Json → Json
  | array items => text (Text.join [','] (items.map (·.display.readable)))
  | value => value

end Json

namespace Manifest

/-- Options for the settings of a manifest, by the names of options, with a value for the
conversions. -/
def restoring (settings conversions : Json) : Json :=
  record [("algorithm", settings.member "algorithm"), ("features", settings.member "features"),
    ("stable_names", settings.member "stableNames"), ("convert", conversions)]

theorem restoring_toJson (m : Manifest) (conversions : Json) :
    restoring (m.toJson.member "meta") conversions =
      record [("algorithm", .text m.algorithm.name.toList),
        ("features", .array (m.features.map fun f => .text f.name.toList)),
        ("stable_names", .bool (m.naming = .stable)), ("convert", conversions)] := rfl

end Manifest

namespace Config

/-- What options for the four settings of a manifest make of a configuration. -/
theorem overlay_settings (base : Config) {algorithm : DarkMethod} {features : List Feature}
    (naming : Naming) {conversions : Json} {chain : List Conversion}
    (ordered : Feature.IsOrdered features) (given : conversions ≠ .null)
    (read : Conversion.parse conversions = .ok chain) :
    base.overlay (Manifest.record [("algorithm", .text algorithm.name.toList),
        ("features", .array (features.map fun f => .text f.name.toList)),
        ("stable_names", .bool (naming = .stable)), ("convert", conversions)]) =
      .ok { base with
        algorithm := algorithm, features := features, naming := naming, conversions := chain } := by
  let members : List (CodeText × Json) :=
    [(.ofText "algorithm".toList, .text algorithm.name.toList),
      (.ofText "features".toList, .array (features.map fun f => .text f.name.toList)),
      (.ofText "stable_names".toList, .bool (naming = .stable)),
      (.ofText "convert".toList, conversions)]
  have others : ∀ f ∈ LengthBases.fields, CodeText.ofText f.1.toList ∉
      ["algorithm", "features", "stable_names", "convert"].map fun name => .ofText name.toList := by
    decide
  have convert : Json.givenAs? members "convert" "conversions" = some conversions :=
    Json.unlessNull_some given
  refine overlayMembers_eq_ok_iff.2 ⟨fun f hf => ?_, DarkMethod.parse_name algorithm,
    Feature.parse_names ordered, nofun, fun _ => rfl, ?_, ?_, rfl⟩
  · change Reads Json.toNumber (Json.given? members f.1) (f.2 base.bases) (f.2 base.bases)
    have missing : members.lookup (.ofText f.1.toList) = none :=
      lookup_eq_none_iff_notMem.2 (others f hf)
    rw [Json.given?, missing]
    rfl
  · cases naming <;> rfl
  · change Reads Conversion.parse (Json.givenAs? members "convert" "conversions") _ chain
    rw [convert]
    exact read

/-- The settings in the manifest of a run give any configuration the settings of that run, and
leave it as it is otherwise. The conversions may be given as the list or as one text. -/
theorem overlay_restoring {layers : List Json} {config : Config}
    (h : layers.foldlM (fun c options => c.overlay options) default = .ok config)
    (tokens : TokenTables) (input : Option Text) (base : Config) :
    let settings := (Manifest.ofTokens tokens config input).toJson.member "meta"
    let conversions := settings.member "conversions"
    let restored : Config := { base with
      algorithm := config.algorithm, features := config.features, naming := config.naming,
      conversions := config.conversions }
    base.overlay (Manifest.restoring settings conversions) = .ok restored ∧
      base.overlay (Manifest.restoring settings conversions.withCommas) = .ok restored := by
  intro settings conversions restored
  have readable := isReadable_default.layers h
  have listed : conversions = .array (config.conversions.map fun c => .text c.text) := rfl
  have joined : conversions.withCommas =
      .text (Text.join [','] (config.conversions.map Conversion.text)) := by
    have texts : (config.conversions.map fun c => Json.text c.text).map (·.display.readable) =
        config.conversions.map Conversion.text := by
      rw [List.map_map]
      exact List.map_congr_left fun c _ => CodeText.readable_ofText c.text
    rw [listed, Json.withCommas, texts]
  constructor
  · rw [Manifest.restoring_toJson]
    exact overlay_settings base config.naming readable.features nofun
      (Conversion.parse_texts readable.conversions)
  · rw [Manifest.restoring_toJson, joined]
    exact overlay_settings base config.naming readable.features nofun
      (Conversion.parse_join readable.conversions)

/-- Two layers of options, with no feature and with a conversion that is dropped. -/
def bareLayers : List Json :=
  [Manifest.record [("features", .array []), ("convert", .text "PX>rem, em > %,ch>ch".toList)],
    Manifest.record [("dark_algorithm", .text "Tone".toList), ("stable_names", .int 1)]]

/-- What the layers make of the default settings. -/
def bareSettings : Config where
  algorithm := .tone
  features := []
  naming := .stable
  conversions := [⟨.px, .rem⟩, ⟨.em, .percent⟩]

theorem overlay_restoring_bare :
    bareLayers.foldlM (fun c options => c.overlay options) default = .ok bareSettings ∧
      let settings := (Manifest.ofTokens {} bareSettings none).toJson.member "meta"
      let conversions := settings.member "conversions"
      default.overlay (Manifest.restoring settings conversions) = .ok bareSettings ∧
        default.overlay (Manifest.restoring settings conversions.withCommas) =
          .ok bareSettings := by
  have made : bareLayers.foldlM (fun c options => c.overlay options) default =
      .ok bareSettings := rfl
  exact ⟨made, overlay_restoring made {} none default⟩

end Config

end DesignTokens
