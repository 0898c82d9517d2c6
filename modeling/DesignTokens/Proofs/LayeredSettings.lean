import DesignTokens.Config.Options
import DesignTokens.Proofs.MergedMaps
import DesignTokens.Proofs.Results

/-!
Settings in layers. Options that are put over a configuration and then other options over the result
do the same as one merged layer: of two values the newer one counts, unless it is null, and prefixes
are merged one by one. Main statement: `overlay_layer`.
-/
namespace DesignTokens

/-- Options by their names. -/
abbrev Options := OrderedMap CodeText Json

namespace Json

/-- The names of two objects of prefixes, with the newer value of each unless it is not set. What is
no object has no prefixes. -/
def mergePrefixes : Json → Json → Json
  | object older, object newer =>
    object (mergeEntries (fun _ old new => if new.isSet then new else old) older newer)
  | object older, _ => object older
  | _, newer => newer

/-- The value of an option that two layers give. -/
def combine (name : CodeText) (older newer : Json) : Json :=
  if name = .ofText "prefixes".toList then mergePrefixes older newer else newer

/-- The value of an option that two layers name. One that is null is not given. -/
def choose (name : CodeText) : Json → Json → Json
  | older, null => older
  | null, newer => newer
  | older, newer => combine name older newer

/-- The value of an option if it is given. -/
def unlessNull : Option Json → Option Json
  | none | some null => none
  | some value => some value

theorem unlessNull_some {value : Json} (h : value ≠ null) :
    unlessNull (some value) = some value := by
  cases value with
  | null => exact absurd rfl h
  | bool _ | int _ | float _ | string _ | array _ | object _ => rfl

theorem combine_ne_null (name : CodeText) (older : Json) {newer : Json} (h : newer ≠ null) :
    combine name older newer ≠ null := by
  rw [combine]
  split
  · cases older with
    | object _ => cases newer <;> exact nofun
    | null | bool _ | int _ | float _ | string _ | array _ => exact h
  · exact h

theorem unlessNull_choose_some (name : CodeText) (a b : Json) :
    unlessNull (some (choose name a b)) = (unlessNull (some b)).elim (unlessNull (some a)) fun b =>
      some ((unlessNull (some a)).elim b fun a => combine name a b) := by
  unfold choose
  split
  · rfl
  · rename_i hb
    rw [unlessNull_some hb]
    rfl
  · rename_i ha hb
    rw [unlessNull_some ha, unlessNull_some hb, unlessNull_some (combine_ne_null name a hb)]
    rfl

/-- Whether an option is given may be asked before or after two layers are merged. -/
theorem unlessNull_choose (name : CodeText) (older newer : Option Json) :
    unlessNull (older.elim newer fun a => some (newer.elim a (choose name a))) =
      (unlessNull newer).elim (unlessNull older) fun b =>
        some ((unlessNull older).elim b fun a => combine name a b) := by
  cases older with
  | none =>
      change unlessNull newer = _
      cases unlessNull newer <;> rfl
  | some a =>
      cases newer with
      | none => rfl
      | some b => exact unlessNull_choose_some name a b

/-- The value for a series in the object of prefixes, if it is set. -/
def prefixFor? (prefixes : Option Json) (s : Series) : Option Json :=
  match prefixes with
  | some (object members) => (members.lookup (.ofText s.key.toList)).filter isSet
  | _ => none

/-- Prefixes are an object, unless there are none. -/
def IsPrefixes (value : Json) : Prop := value.isSet = true → ∃ members, value = object members

theorem IsPrefixes.merge {older newer : Json} (first : older.IsPrefixes)
    (second : newer.IsPrefixes) : (mergePrefixes older newer).IsPrefixes := by
  cases older with
  | object _ => cases newer <;> exact fun _ => ⟨_, rfl⟩
  | null | bool _ | int _ | float _ | string _ | array _ => exact second

theorem prefixFor?_getD (value : Option Json) (s : Series) :
    prefixFor? (some (value.getD null)) s = prefixFor? value s := by
  cases value <;> rfl

theorem givenAs?_eq_given? {members : List (CodeText × Json)} {name other : String}
    (h : members.lookup (.ofText other.toList) = none) :
    givenAs? members name other = given? members name := by
  rw [givenAs?]
  split
  · rfl
  · rename_i missing
    rw [Bool.not_eq_true, Option.isSome_eq_false_iff, Option.isNone_iff_eq_none] at missing
    rw [given?, given?, h, missing]

theorem prefixFor?_mergePrefixes (older newer : Json) (s : Series) :
    prefixFor? (some (mergePrefixes older newer)) s =
      (prefixFor? (some newer) s).or (prefixFor? (some older) s) := by
  cases older with
  | object older =>
      cases newer with
      | object newer =>
          simp only [mergePrefixes, prefixFor?, lookup_mergeEntries]
          cases older.lookup (.ofText s.key.toList) with
          | none => exact (Option.or_none).symm
          | some old =>
              cases newer.lookup (.ofText s.key.toList) with
              | none => rfl
              | some new => cases h : new.isSet <;> simp [h, Option.filter]
      | null | bool _ | int _ | float _ | string _ | array _ => rfl
  | null | bool _ | int _ | float _ | string _ | array _ => exact (Option.or_none).symm

end Json

/-- Prefixes are read from an object, or there are none. -/
theorem Series.overlay_eq_ok_iff {prefixes : Option Json} {old new : Series → CodeText} :
    overlay (prefixes.getD .null) old = .ok new ↔ (prefixes.getD .null).IsPrefixes ∧
      ∀ s, new s = (Json.prefixFor? prefixes s).elim (old s) Json.display := by
  rw [forall_congr' fun s => by rw [← Json.prefixFor?_getD], ← funext_iff, eq_comm (a := new)]
  generalize prefixes.getD .null = value
  cases value with
  | object members =>
      have read : overlay (.object members) old =
          .ok fun s => (Json.prefixFor? (some (.object members)) s).elim (old s) Json.display := by
        rw [overlay]
        cases members with
        | nil => rfl
        | cons e rest =>
            refine congrArg Except.ok (funext fun s => ?_)
            rw [Json.prefixFor?]
            cases (e :: rest).lookup (.ofText s.key.toList) with
            | none => rfl
            | some value => cases h : value.isSet <;> simp [h, Option.filter]
      rw [read, Except.ok.injEq]
      exact ⟨fun same => ⟨fun _ => ⟨members, rfl⟩, same⟩, And.right⟩
  | null | bool _ | int _ | float _ | string _ | array _ =>
      unfold overlay
      split
      · rename_i unset
        rw [Except.ok.injEq]
        exact ⟨fun same => ⟨fun set => absurd set (by simpa using unset), same⟩, And.right⟩
      · rename_i set
        refine ⟨nofun, fun h => ?_⟩
        obtain ⟨members, object⟩ := h.1 (by simpa using set)
        cases object

/-- A setting has what is read from its value, or what it had if no value is given. -/
def Reads {α : Type} (read : Json → Except OptionError α) (value : Option Json) (old new : α) :
    Prop := value.elim (.ok old) read = .ok new

namespace Reads

variable {α : Type} {read : Json → Except OptionError α} {value newer : Option Json} {a b c : α}

theorem eq_of_none (h : Reads read none a b) : b = a := (Except.ok.inj h).symm

theorem layer (first : Reads read value a b) (second : Reads read newer b c) :
    Reads read (newer.or value) a c := by
  cases newer with
  | none =>
      cases eq_of_none second
      exact first
  | some value => exact second

end Reads

/-- The bases of lengths by the names of their options. -/
def LengthBases.fields : List (String × (LengthBases → Float)) :=
  [("root_px", root), ("context_px", context), ("viewport_width_px", viewportWidth),
    ("viewport_height_px", viewportHeight), ("percent_base_px", percentBase), ("ch_px", character)]

namespace Config

def readNaming (value : Json) : Except OptionError Naming :=
  .ok (if value.isSet then .stable else .sequential)

/-- What options make of a configuration: each field is read from its option. -/
structure Overlays (members : List (CodeText × Json)) (c c' : Config) : Prop where
  bases : ∀ f ∈ LengthBases.fields,
    Reads Json.toNumber (Json.given? members f.1) (f.2 c.bases) (f.2 c'.bases)
  algorithm : Reads DarkMethod.parse (Json.givenAs? members "algorithm" "dark_algorithm")
    c.algorithm c'.algorithm
  features : Reads Feature.parse (Json.given? members "features") c.features c'.features
  prefixes : ((Json.given? members "prefixes").getD .null).IsPrefixes
  tokenPrefix : ∀ s, c'.tokenPrefix s =
    (Json.prefixFor? (Json.given? members "prefixes") s).elim (c.tokenPrefix s) Json.display
  naming : Reads readNaming (Json.given? members "stable_names") c.naming c'.naming
  conversions : Reads Conversion.parse (Json.givenAs? members "convert" "conversions")
    c.conversions c'.conversions
  prefersRootSizes : Reads (fun value => .ok value.isSet) (Json.given? members "prefer_rem")
    c.prefersRootSizes c'.prefersRootSizes

theorem reads_total {α : Type} (f : Json → α) (value : Option Json) (old new : α) :
    Reads (fun v => .ok (f v)) value old new ↔ value.elim old f = new := by
  cases value <;> exact Except.ok.injEq _ _ ▸ Iff.rfl

theorem overlayMembers_eq_ok_iff {members : List (CodeText × Json)} {c c' : Config} :
    c.overlayMembers members = .ok c' ↔ Overlays members c c' := by
  constructor
  · intro h
    obtain ⟨bases, hbases, h⟩ := exists_of_bind_eq_ok h
    obtain ⟨algorithm, halgorithm, h⟩ := exists_of_bind_eq_ok h
    obtain ⟨features, hfeatures, h⟩ := exists_of_bind_eq_ok h
    obtain ⟨prefixes, hprefixes, h⟩ := exists_of_bind_eq_ok h
    obtain ⟨conversions, hconversions, h⟩ := exists_of_bind_eq_ok h
    obtain ⟨root, hroot, hbases⟩ := exists_of_bind_eq_ok hbases
    obtain ⟨context, hcontext, hbases⟩ := exists_of_bind_eq_ok hbases
    obtain ⟨width, hwidth, hbases⟩ := exists_of_bind_eq_ok hbases
    obtain ⟨height, hheight, hbases⟩ := exists_of_bind_eq_ok hbases
    obtain ⟨percent, hpercent, hbases⟩ := exists_of_bind_eq_ok hbases
    obtain ⟨character, hcharacter, hbases⟩ := exists_of_bind_eq_ok hbases
    obtain ⟨isPrefixes, tokenPrefix⟩ := Series.overlay_eq_ok_iff.1 hprefixes
    cases hbases
    cases h
    refine ⟨?_, halgorithm, hfeatures, isPrefixes, tokenPrefix, ?_, hconversions, ?_⟩
    · simp only [LengthBases.fields, List.forall_mem_cons]
      exact ⟨hroot, hcontext, hwidth, hheight, hpercent, hcharacter, nofun⟩
    · exact (reads_total _ _ _ _).2 rfl
    · exact (reads_total _ _ _ _).2 rfl
  · intro h
    have hbases := h.bases
    simp only [LengthBases.fields, List.forall_mem_cons] at hbases
    obtain ⟨hroot, hcontext, hwidth, hheight, hpercent, hcharacter, -⟩ := hbases
    have naming := (reads_total _ _ _ _).1 h.naming
    have prefers := (reads_total _ _ _ _).1 h.prefersRootSizes
    have bases : c.bases.overlay members = .ok c'.bases :=
      bind_eq_ok hroot <| bind_eq_ok hcontext <| bind_eq_ok hwidth <| bind_eq_ok hheight <|
        bind_eq_ok hpercent <| bind_eq_ok hcharacter rfl
    refine bind_eq_ok bases <| bind_eq_ok h.algorithm <| bind_eq_ok h.features <|
      bind_eq_ok (Series.overlay_eq_ok_iff.2 ⟨h.prefixes, h.tokenPrefix⟩) <|
        bind_eq_ok h.conversions ?_
    obtain ⟨_, _, _, _, _, _, _⟩ := c'
    cases naming
    cases prefers
    rfl

end Config

namespace Options

variable (older newer : Options)

/-- Two layers of options as one. -/
def layer : Options where
  entries := mergeEntries Json.choose older.entries newer.entries
  nodup_keys := nodup_keys_mergeEntries older.nodup_keys newer.nodup_keys

def toJson (o : Options) : Json := .object o.entries

def given? (o : Options) (name : String) : Option Json := Json.given? o.entries name

theorem given?_layer (name : String) :
    (older.layer newer).given? name = (newer.given? name).elim (older.given? name) fun b =>
      some ((older.given? name).elim b fun a => Json.combine (.ofText name.toList) a b) := by
  have all := Json.unlessNull_choose (.ofText name.toList)
    (older.entries.lookup (.ofText name.toList)) (newer.entries.lookup (.ofText name.toList))
  rwa [← lookup_mergeEntries] at all

/-- Of two values the newer one counts. -/
theorem given?_layer_of_ne {name : String}
    (h : CodeText.ofText name.toList ≠ .ofText "prefixes".toList) :
    (older.layer newer).given? name = (newer.given? name).or (older.given? name) := by
  rw [given?_layer]
  cases newer.given? name with
  | none => rfl
  | some b =>
      cases older.given? name with
      | none => rfl
      | some a => exact congrArg some (if_neg h)

/-- Of two prefixes the newer one counts. -/
theorem prefixFor?_layer (s : Series) :
    Json.prefixFor? ((older.layer newer).given? "prefixes") s =
      (Json.prefixFor? (newer.given? "prefixes") s).or
        (Json.prefixFor? (older.given? "prefixes") s) := by
  rw [given?_layer]
  cases newer.given? "prefixes" with
  | none => rfl
  | some b =>
      cases older.given? "prefixes" with
      | none => exact Option.or_none.symm
      | some a => exact Json.prefixFor?_mergePrefixes a b s

/-- An option has a value that is not null. -/
def Gives (o : Options) (name : String) : Prop := (o.given? name).isSome

/-- A prefix has a value that is set. -/
def GivesPrefix (o : Options) (s : Series) : Prop :=
  (Json.prefixFor? (o.given? "prefixes") s).isSome

/-- What goes by two names is given by the first of them, so the other one is not there. -/
def IsCanonical (o : Options) : Prop :=
  ∀ other ∈ ["dark_algorithm", "conversions"], o.entries.lookup (.ofText other.toList) = none

variable {older newer}

theorem IsCanonical.layer (first : older.IsCanonical) (second : newer.IsCanonical) :
    (older.layer newer).IsCanonical := by
  intro other h
  rw [Options.layer, lookup_mergeEntries, first other h, second other h]
  rfl

theorem IsCanonical.givenAs? (h : older.IsCanonical) {name other : String}
    (hs : other ∈ ["dark_algorithm", "conversions"]) :
    Json.givenAs? older.entries name other = older.given? name :=
  Json.givenAs?_eq_given? (h other hs)

theorem isPrefixes_layer (first : ((older.given? "prefixes").getD .null).IsPrefixes)
    (second : ((newer.given? "prefixes").getD .null).IsPrefixes) :
    (((older.layer newer).given? "prefixes").getD .null).IsPrefixes := by
  rw [given?_layer]
  cases hn : newer.given? "prefixes" with
  | none => exact first
  | some b =>
      rw [hn] at second
      cases ho : older.given? "prefixes" with
      | none => exact second
      | some a =>
          rw [ho] at first
          exact first.merge second

end Options

namespace Config

variable {older newer : Options} {c c₁ c₂ : Config}

/-- Two layers do what their merge does. -/
theorem Overlays.layer (first : Overlays older.entries c c₁) (plain : older.IsCanonical)
    (plain' : newer.IsCanonical) (second : Overlays newer.entries c₁ c₂) :
    Overlays (older.layer newer).entries c c₂ := by
  have given {α : Type} {read : Json → Except OptionError α} {name : String} {x y z : α}
      (h : CodeText.ofText name.toList ≠ .ofText "prefixes".toList)
      (hx : Reads read (older.given? name) x y) (hy : Reads read (newer.given? name) y z) :
      Reads read ((older.layer newer).given? name) x z := by
    rw [Options.given?_layer_of_ne older newer h]
    exact hx.layer hy
  have givenAs {α : Type} {read : Json → Except OptionError α} {name other : String} {x y z : α}
      (h : CodeText.ofText name.toList ≠ .ofText "prefixes".toList)
      (hs : other ∈ ["dark_algorithm", "conversions"])
      (hx : Reads read (Json.givenAs? older.entries name other) x y)
      (hy : Reads read (Json.givenAs? newer.entries name other) y z) :
      Reads read (Json.givenAs? (older.layer newer).entries name other) x z := by
    rw [plain.givenAs? hs] at hx
    rw [plain'.givenAs? hs] at hy
    rw [(plain.layer plain').givenAs? hs]
    exact given h hx hy
  have other : ∀ f ∈ LengthBases.fields,
      CodeText.ofText f.1.toList ≠ .ofText "prefixes".toList := by decide
  refine ⟨fun f hf => given (other f hf) (first.bases f hf) (second.bases f hf),
    givenAs (by decide) (by decide) first.algorithm second.algorithm,
    given (by decide) first.features second.features,
    Options.isPrefixes_layer first.prefixes second.prefixes, fun s => ?_,
    given (by decide) first.naming second.naming,
    givenAs (by decide) (by decide) first.conversions second.conversions,
    given (by decide) first.prefersRootSizes second.prefersRootSizes⟩
  change _ = (Json.prefixFor? ((older.layer newer).given? "prefixes") s).elim _ _
  rw [second.tokenPrefix, first.tokenPrefix, Options.prefixFor?_layer]
  change (Json.prefixFor? (newer.given? "prefixes") s).elim _ _ = _
  cases Json.prefixFor? (newer.given? "prefixes") s with
  | none => rfl
  | some value => rfl

theorem overlay_eq_ok_iff {o : Options} : c.overlay o.toJson = .ok c₁ ↔ Overlays o.entries c c₁ :=
  overlayMembers_eq_ok_iff

/-- A configuration is as another one but for the fields that are given. -/
structure AgreesBut (given : String → Prop) (givenPrefix : Series → Prop) (c c' : Config) :
    Prop where
  bases : ∀ f ∈ LengthBases.fields, ¬given f.1 → f.2 c'.bases = f.2 c.bases
  algorithm : ¬given "algorithm" → c'.algorithm = c.algorithm
  features : ¬given "features" → c'.features = c.features
  tokenPrefix : ∀ s, ¬givenPrefix s → c'.tokenPrefix s = c.tokenPrefix s
  naming : ¬given "stable_names" → c'.naming = c.naming
  conversions : ¬given "convert" → c'.conversions = c.conversions
  prefersRootSizes : ¬given "prefer_rem" → c'.prefersRootSizes = c.prefersRootSizes

/-- A layer leaves the fields that it does not give. -/
theorem Overlays.agreesBut {o : Options} (plain : o.IsCanonical) (h : Overlays o.entries c c₁)
    {given : String → Prop} {givenPrefix : Series → Prop}
    (names : ∀ name, o.Gives name → given name)
    (prefixes : ∀ s, o.GivesPrefix s → givenPrefix s) : AgreesBut given givenPrefix c c₁ := by
  have kept {α : Type} {read : Json → Except OptionError α} {name : String} {x y : α}
      (hr : Reads read (o.given? name) x y) (no : ¬given name) : y = x := by
    have none : o.given? name = none := Option.not_isSome_iff_eq_none.1 fun is => no (names _ is)
    rw [none] at hr
    exact hr.eq_of_none
  have algorithm := h.algorithm
  have conversions := h.conversions
  rw [plain.givenAs? (by decide)] at algorithm conversions
  refine ⟨fun f hf => kept (h.bases f hf), kept algorithm, kept h.features, ?_, kept h.naming,
    kept conversions, kept h.prefersRootSizes⟩
  intro s no
  have none : Json.prefixFor? (o.given? "prefixes") s = none :=
    Option.not_isSome_iff_eq_none.1 fun is => no (prefixes s is)
  rw [h.tokenPrefix]
  change (Json.prefixFor? (o.given? "prefixes") s).elim _ _ = _
  rw [none]
  rfl

/-- Options that are put over a configuration one after the other are put over it as one merged
layer, however more than two of them are merged. What no layer gives stays as it was. -/
theorem overlay_layer (plain : older.IsCanonical) (plain' : newer.IsCanonical)
    (first : c.overlay older.toJson = .ok c₁) (second : c₁.overlay newer.toJson = .ok c₂) :
    c.overlay (older.layer newer).toJson = .ok c₂ ∧
      AgreesBut (fun name => older.Gives name ∨ newer.Gives name)
        (fun s => older.GivesPrefix s ∨ newer.GivesPrefix s) c c₂ ∧
      ∀ {newest : Options} {c₃ : Config}, newest.IsCanonical →
        c₂.overlay newest.toJson = .ok c₃ →
        c.overlay ((older.layer newer).layer newest).toJson = .ok c₃ ∧
          c.overlay (older.layer (newer.layer newest)).toJson = .ok c₃ := by
  rw [overlay_eq_ok_iff] at first second
  have both := first.layer plain plain' second
  refine ⟨overlay_eq_ok_iff.2 both, both.agreesBut (plain.layer plain') ?_ ?_, ?_⟩
  · intro name given
    rw [Options.Gives, Options.given?_layer] at given
    cases hn : newer.given? name with
    | none =>
        rw [hn] at given
        exact .inl given
    | some b => exact .inr (congrArg Option.isSome hn)
  · intro s given
    rw [Options.GivesPrefix, Options.prefixFor?_layer, Option.isSome_or, Bool.or_eq_true] at given
    exact given.symm
  · intro newest c₃ plain'' third
    rw [overlay_eq_ok_iff] at third ⊢
    rw [overlay_eq_ok_iff]
    exact ⟨both.layer (plain.layer plain') plain'' third,
      first.layer plain (plain'.layer plain'') (second.layer plain' plain'' third)⟩

/-- Options of a file. -/
def fileOptions : Options := .ofList [(.ofText "root_px".toList, .int 10),
  (.ofText "algorithm".toList, .text "tone".toList),
  (.ofText "prefixes".toList,
    .record [("space".toList, .text "sp".toList), ("shadow".toList, .text "drop".toList)])]

/-- Options of a command line, of which one is null and one prefix is empty. -/
def flagOptions : Options := .ofList [(.ofText "root_px".toList, .null),
  (.ofText "stable_names".toList, .bool true),
  (.ofText "prefixes".toList,
    .record [("space".toList, .text []), ("shadow".toList, .text "fall".toList)])]

theorem overlay_layer_flagsOverFile : fileOptions.IsCanonical ∧ flagOptions.IsCanonical ∧
    ∃ c₁ c₂, default.overlay fileOptions.toJson = .ok c₁ ∧
      c₁.overlay flagOptions.toJson = .ok c₂ ∧
      default.overlay (fileOptions.layer flagOptions).toJson = .ok c₂ ∧
      (c₂.algorithm, c₂.naming, c₂.nameStart (.category .spacing),
        c₂.nameStart (.category .shadows)) = (.tone, .stable, "sp".toList, "fall".toList) := by
  have plain : fileOptions.IsCanonical := by
    unfold Options.IsCanonical
    decide
  have plain' : flagOptions.IsCanonical := by
    unfold Options.IsCanonical
    decide
  have made : ((default.overlay fileOptions.toJson >>= (·.overlay flagOptions.toJson)).toOption.map
      fun c => (c.algorithm, c.naming, c.nameStart (.category .spacing),
        c.nameStart (.category .shadows))) =
        some (.tone, .stable, "sp".toList, "fall".toList) := by decide +kernel
  refine ⟨plain, plain', ?_⟩
  cases first : default.overlay fileOptions.toJson with
  | error e =>
      rw [first] at made
      cases made
  | ok c₁ =>
      rw [first] at made
      change ((c₁.overlay flagOptions.toJson).toOption.map _) = _ at made
      cases second : c₁.overlay flagOptions.toJson with
      | error e =>
          rw [second] at made
          cases made
      | ok c₂ =>
          rw [second] at made
          exact ⟨c₁, c₂, rfl, second, (overlay_layer plain plain' first second).1,
            Option.some.inj made⟩

end Config

end DesignTokens
