import DesignTokens.Proofs.CharClasses
import DesignTokens.Proofs.OrderedMaps
import DesignTokens.Proofs.References
import DesignTokens.Proofs.Results
import DesignTokens.Token.Document

/-!
The names of tokens. With plain prefixes all of them are written with `-`, digits and small letters,
numbers and digests alike; by default the root block declares exactly these names.
-/
namespace DesignTokens

namespace TokenName

/-- The characters of signs and digits. -/
def isDashOrDigit (c : Char) : Bool := c == '-' || c.isDigit

theorem isDashOrDigit_of_mem_padNumber {width : Nat} {n : Int} :
    ∀ c ∈ padNumber width n, isDashOrDigit c := by
  intro c hc
  simp only [padNumber, List.mem_append] at hc
  rcases hc with (sign | zero) | digit
  · split at sign
    · obtain rfl := List.mem_singleton.1 sign
      rfl
    · cases sign
  · obtain rfl := List.eq_of_mem_replicate zero
    rfl
  · simp [isDashOrDigit, Number.isDigit_of_mem_digits c digit]

theorem isPart_of_isDashOrDigit {c : Char} (h : isDashOrDigit c) : isPart c := by
  rw [isDashOrDigit] at h
  simp [isPart, h]

theorem Valid.append {name s : Text} (h : Valid name) (hs : ∀ c ∈ s, isPart c) :
    Valid (name ++ s) := by
  constructor
  · intro c hc
    exact (List.mem_append.1 hc).elim (h.parts c) (hs c)
  · exact h.dashes.trans (List.prefix_append name s)

theorem valid_dashes : Valid "--".toList := ⟨List.all_eq_true.1 (by decide), by decide⟩

theorem valid_suffixed {name : Text} (h : Valid name) (n : Nat) : Valid (suffixed name n) := by
  refine h.append fun c hc => ?_
  rcases List.mem_cons.1 hc with rfl | hc
  · rfl
  · simp [isPart, Number.isDigit_of_mem_digits c hc]

theorem of_fresh {P : Text → Prop} {base : Text} (h : P base) (ending : ∀ n, P (suffixed base n))
    (used : List Text) : P (fresh base used) := by
  have first (tries n : Nat) : P (firstFree base used tries n) := by
    induction tries generalizing n with
    | zero => exact ending n
    | succ tries ih =>
        rw [firstFree]
        split
        · exact ih (n + 1)
        · exact ending n
  rw [fresh]
  split
  · exact first _ _
  · exact h

/-- What holds of base names, and of a name with an ending if it holds of the name, holds of all
names that are given out. -/
theorem forall_mem_assign {s : NameScheme} {P : Text → Prop}
    (base : ∀ literal index, P (s.base literal index))
    (ending : ∀ name n, P name → P (suffixed name n)) (used : List Text)
    (literals : List (Text × Int)) : ∀ name ∈ assign s used literals, P name := by
  induction literals generalizing used with
  | nil => simp [assign]
  | cons l literals ih =>
      intro name hname
      rcases List.mem_cons.1 hname with rfl | hname
      · exact of_fresh (base _ _) (fun n => ending _ n (base _ _)) used
      · exact ih _ name hname

theorem isPart_of_mem_shortDigest {literal : Text} : ∀ c ∈ Text.shortDigest literal, isPart c := by
  have digits : "0123456789abcdef".toList.all isPart := by decide
  intro c hc
  obtain ⟨b, -, hc⟩ := List.mem_flatMap.1 hc
  exact List.all_eq_true.1 digits c (Text.mem_of_mem_hexDigits c hc)

/-- A scheme for names without other characters than those of `isPart`. -/
structure Plain (s : NameScheme) : Prop where
  start : ∀ c ∈ s.start, isPart c
  separator : ∀ c ∈ s.separator, isPart c

variable {s : NameScheme}

theorem Plain.valid_base (hs : Plain s) (literal : Text) (index : Int) :
    Valid (s.base literal index) := by
  have prefixed := valid_dashes.append hs.start
  rw [NameScheme.base]
  split
  · refine prefixed.append fun c hc => ?_
    rcases List.mem_cons.1 hc with rfl | hc
    · rfl
    · exact isPart_of_mem_shortDigest c hc
  · exact (prefixed.append hs.separator).append fun c hc =>
      isPart_of_isDashOrDigit (isDashOrDigit_of_mem_padNumber c hc)

theorem Plain.valid_assign (hs : Plain s) (used : List Text) (literals : List (Text × Int)) :
    ∀ name ∈ assign s used literals, Valid name :=
  forall_mem_assign hs.valid_base (fun _ n h => valid_suffixed h n) used literals

theorem valid_of_role (role : Role) : Valid role.tokenName := by
  constructor
  · rw [← List.all_eq_true]
    cases role <;> decide
  · cases role <;> decide

end TokenName

open TokenName

theorem TokenMap.valid_ofLiterals {s : NameScheme} (hs : Plain s) {literals : List Text} :
    ∀ e ∈ (ofLiterals s literals).entries, Valid e.2 := by
  intro e he
  exact hs.valid_assign _ _ _ (List.of_mem_zip (OrderedMap.mem_ofList he)).2

theorem RoleAssignment.exists_role_of_mem_named {a : RoleAssignment} {e : Text × Text}
    (h : e ∈ a.named.entries) : ∃ role : Role, e.2 = role.tokenName := by
  obtain ⟨⟨role, color⟩, -, hc⟩ := List.mem_filterMap.1 (OrderedMap.mem_ofList h)
  obtain ⟨c, -, rfl⟩ := Option.map_eq_some_iff.1 hc
  exact ⟨role, rfl⟩

theorem Config.has_default (f : Feature) : Config.default.has f := by
  cases f <;> rfl

/-- Settings whose prefixes are plain. -/
def Config.NamesPlainly (config : Config) : Prop :=
  ∀ series, ∀ c ∈ config.nameStart series, isPart c

theorem Config.namesPlainly_of_tokenPrefix {config : Config}
    (h : config.tokenPrefix = default.tokenPrefix) : config.NamesPlainly := by
  intro series
  have plain : ∀ c ∈ series.defaultPrefix, isPart c := by
    rw [← List.all_eq_true]
    cases series with
    | color => decide
    | category c => cases c <;> decide
  simpa [nameStart, h, default] using plain

namespace TokenTables

theorem table_ofCandidates (candidates : Candidates) (roles : RoleAssignment) (config : Config)
    (c : Category) :
    (ofCandidates candidates roles config).table c =
      nameCategory config c (candidates.table c) := by
  let named := Category.all.map fun c => (c, nameCategory config c (candidates.table c))
  have entries : (OrderedMap.ofList named).entries = named := by
    have keys : named.map Prod.fst = Category.all := by
      rw [List.map_map]
      exact List.map_id _
    exact OrderedMap.entries_ofList (keys ▸ by decide)
  have value : named.lookup c = some (nameCategory config c (candidates.table c)) := by
    cases c <;> rfl
  rw [table, OrderedMap.get?, ofCandidates, entries, value]
  rfl

variable {candidates : Candidates} {roles : RoleAssignment} {config : Config}
  (hc : config.NamesPlainly)
include hc

theorem valid_table (c : Category) :
    ∀ e ∈ ((ofCandidates candidates roles config).table c).entries, Valid e.2 := by
  rw [table_ofCandidates, nameCategory]
  split
  · exact TokenMap.valid_ofLiterals ⟨hc _, by simp [isPart]⟩
  · exact fun e he => nomatch he

theorem valid_colors :
    ∀ e ∈ (ofCandidates candidates roles config).colors.entries, Valid e.2 := by
  intro e he
  rcases OrderedMap.mem_union he with semantic | numbered
  · simp only [ofCandidates] at semantic
    split at semantic
    · obtain ⟨role, name⟩ := RoleAssignment.exists_role_of_mem_named semantic
      exact name ▸ valid_of_role role
    · cases semantic
  · simp only [ofCandidates] at numbered
    split at numbered
    · exact TokenMap.valid_ofLiterals ⟨hc _, by simp⟩ e numbered
    · cases numbered

end TokenTables

def DocumentLine.name? : DocumentLine → Option Text
  | .title _ _ => none
  | .declaration name _ => some name

namespace TokenDocument

def rootNames (d : TokenDocument) : List Text := d.root.filterMap DocumentLine.name?

theorem names_declarations (render : Text → Text) (m : TokenMap) :
    (declarations render m).filterMap DocumentLine.name? = m.values := by
  simp [declarations, OrderedMap.values, List.filterMap_map, Function.comp_def, DocumentLine.name?]

theorem names_sectionOf (title : String) (render : Text → Text) (m : TokenMap) :
    (sectionOf title render m).filterMap DocumentLine.name? = m.values := by
  rw [sectionOf]
  split
  · rename_i h
    have empty : m.entries = [] := by simpa [OrderedMap.isEmpty] using h
    simp [OrderedMap.values, empty]
  · exact names_declarations render m

theorem name_colorLines {algorithm : DarkMethod} {entry : Text × Text}
    {lines : DocumentLine × DocumentLine} (h : colorLines algorithm entry = .ok lines) :
    lines.1.name? = some entry.2 := by
  obtain ⟨color, -, h⟩ := exists_of_bind_eq_ok h
  obtain ⟨dark, -, h⟩ := exists_of_bind_eq_ok h
  cases h
  rfl

theorem names_colorLines {algorithm : DarkMethod} {entries : List (Text × Text)}
    {pairs : List (DocumentLine × DocumentLine)}
    (h : List.Forall₂ (fun entry lines => colorLines algorithm entry = .ok lines) entries pairs) :
    (pairs.map Prod.fst).filterMap DocumentLine.name? = entries.map Prod.snd := by
  induction h with
  | nil => rfl
  | cons h _ ih => simp [name_colorLines h, ih]

theorem names_colorSections {tokens : TokenTables}
    {lines : List DocumentLine × List DocumentLine}
    (h : colorSections .default tokens = .ok lines) :
    lines.1.filterMap DocumentLine.name? = tokens.colors.values := by
  rw [colorSections] at h
  split at h
  · obtain ⟨pairs, hpairs, h⟩ := exists_of_bind_eq_ok h
    cases h
    exact names_colorLines (forall₂_of_mapM_eq_ok hpairs)
  · rename_i empty
    cases h
    have none : tokens.colors.entries = [] := by
      simpa [Config.has_default, OrderedMap.isEmpty] using empty
    simp [OrderedMap.values, none]

/-- By default the root block declares the name of every token. -/
theorem rootNames_eq {tokens : TokenTables} {d : TokenDocument}
    (h : ofTokens .default tokens = .ok d) :
    d.rootNames = tokens.colors.values ++
      ([Category.fontFamilies, .fontSizes, .lineHeights, .fontWeights, .letterSpacings, .spacing,
        .borderWidths, .radii, .shadows, .durations, .easings].flatMap fun c =>
          (tokens.table c).values) := by
  obtain ⟨colors, hcolors, h⟩ := exists_of_bind_eq_ok h
  obtain ⟨spacing, hspacing, h⟩ := exists_of_bind_eq_ok h
  cases h
  have colorNames := names_colorSections hcolors
  have spacingNames : spacing.filterMap DocumentLine.name? = (tokens.table .spacing).values := by
    rw [spacingValues, if_neg (by decide)] at hspacing
    cases hspacing
    exact names_sectionOf _ _ _
  simp [rootNames, linesIf, Config.has_default, colorNames, spacingNames, typographyRoot,
    typography, motionSections, names_sectionOf]

section Declared

variable {candidates : Candidates} {roles : RoleAssignment} {d : TokenDocument}
  (h : ofTokens .default (.ofCandidates candidates roles .default) = .ok d)
include h

theorem valid_of_mem_rootNames : ∀ name ∈ d.rootNames, Valid name := by
  intro name hname
  have plain : Config.default.NamesPlainly := Config.namesPlainly_of_tokenPrefix rfl
  rw [rootNames_eq h, List.mem_append, List.mem_flatMap] at hname
  rcases hname with color | ⟨c, -, other⟩
  · obtain ⟨e, he, rfl⟩ := List.mem_map.1 color
    exact TokenTables.valid_colors plain e he
  · obtain ⟨e, he, rfl⟩ := List.mem_map.1 other
    exact TokenTables.valid_table plain c e he

theorem mem_rootNames_of_color {e : Text × Text}
    (he : e ∈ (TokenTables.ofCandidates candidates roles .default).colors.entries) :
    e.2 ∈ d.rootNames := by
  rw [rootNames_eq h]
  exact List.mem_append_left _ (List.mem_map_of_mem he)

theorem mem_rootNames_of_table {c : Category} {e : Text × Text}
    (he : e ∈ ((TokenTables.ofCandidates candidates roles .default).table c).entries) :
    e.2 ∈ d.rootNames := by
  rw [rootNames_eq h]
  refine List.mem_append_right _ (List.mem_flatMap.2 ⟨c, ?_, List.mem_map_of_mem he⟩)
  cases c <;> decide

end Declared

end TokenDocument

end DesignTokens
