import DesignTokens.Proofs.DistinctNames
import DesignTokens.Proofs.DocumentDeclarations

/-!
The manifest loses nothing. A map whose values differ is exchanged without a loss, and the names
within a series of tokens differ, whatever the prefixes are; so each map of the manifest inverts a
map of the tokens. The document is made from the same tokens, so its block for the root declares the
names of these maps, map by map. Main statement: `manifest_agrees`.
-/
namespace DesignTokens

universe u v

namespace OrderedMap

variable {α : Type u} {β : Type v}

/-- One map is the other with keys and values exchanged. -/
structure Inverts [DecidableEq α] [DecidableEq β] (m : OrderedMap α β) (n : OrderedMap β α) :
    Prop where
  size_eq : m.size = n.size
  get?_iff : ∀ key value, m.get? key = some value ↔ n.get? value = some key

theorem entries_inverse [DecidableEq β] {m : OrderedMap α β} (h : m.values.Nodup) :
    m.inverse.entries = m.entries.map fun e => (e.2, e.1) := by
  apply entries_ofList
  rwa [List.map_map]

theorem inverts_inverse [DecidableEq α] [DecidableEq β] {m : OrderedMap α β}
    (h : m.values.Nodup) : m.inverse.Inverts m := by
  constructor
  · rw [size, entries_inverse h, List.length_map]
    rfl
  · intro key value
    rw [get?_eq_some_iff, get?_eq_some_iff, entries_inverse h]
    simp

end OrderedMap

section Flat

universe w x

variable {ε : Type u} {α : Type v} {β : Type w} {γ : Type x}

/-- Results that are put together group by group are the results of all items. -/
theorem mapM_flatMap {f : β → Except ε γ} {g : α → List β} {items : List α}
    {groups : List (List γ)} (h : items.mapM (fun x => (g x).mapM f) = .ok groups) :
    (items.flatMap g).mapM f = .ok groups.flatten := by
  induction items generalizing groups with
  | nil =>
      cases h
      rfl
  | cons x items ih =>
      rw [List.mapM_cons] at h
      obtain ⟨group, hgroup, h⟩ := exists_of_bind_eq_ok h
      obtain ⟨groups, hgroups, h⟩ := exists_of_bind_eq_ok h
      cases h
      rw [List.flatMap_cons, List.mapM_append]
      exact bind_eq_ok hgroup (bind_eq_ok (ih hgroups) rfl)

theorem flatMap_filter {p : α → Bool} {g : α → List β} {items : List α}
    (h : ∀ x ∈ items, p x = false → g x = []) :
    (items.filter p).flatMap g = items.flatMap g := by
  induction items with
  | nil => rfl
  | cons x items ih =>
      have rest := ih fun y hy => h y (List.mem_cons_of_mem x hy)
      cases taken : p x with
      | true => rw [List.filter_cons_of_pos taken, List.flatMap_cons, rest, List.flatMap_cons]
      | false =>
          rw [List.filter_cons_of_neg (by simp [taken]), rest, List.flatMap_cons,
            h x List.mem_cons_self taken, List.nil_append]

end Flat

namespace Theme

/-- The name of a token of a series with the value that a block gives its literal. -/
def line (theme : Theme) (config : Config) : Series × Text × Text → Except NumberFault (Text × Text)
  | (s, name, literal) => do return (name, ← theme.value config s literal)

/-- Names and literals of the tokens of some series. -/
def named (tables : TokenTables) (ss : List Series) : List (Series × Text × Text) :=
  ss.flatMap fun s => (tables.series s).entries.map fun e => (s, e.2, e.1)

/-- Where disabled features have no tokens, a block declares all tokens of its series. -/
theorem mapM_line_of_declared {theme : Theme} {config : Config} {tables : TokenTables}
    {ss : List Series} {pairs : List (Text × Text)}
    (disabled : ∀ s, ¬config.has s.feature → (tables.series s).entries = [])
    (h : theme.declared config tables ss = .ok pairs) :
    (named tables ss).mapM (theme.line config) = .ok pairs := by
  obtain ⟨groups, hgroups, h⟩ := exists_of_bind_eq_ok h
  cases h
  have enabled : named tables (ss.filter fun s => config.has s.feature) = named tables ss := by
    refine flatMap_filter fun s _ hs => ?_
    rw [disabled s (by simp [hs]), List.map_nil]
  rw [← enabled]
  apply mapM_flatMap
  rw [← hgroups]
  congr 1
  funext s
  rw [List.mapM_map]
  rfl

end Theme

namespace Manifest

/-- The categories in the order of a document. -/
def order : List Category :=
  [.fontFamilies, .fontSizes, .lineHeights, .fontWeights, .letterSpacings, .spacing, .borderWidths,
    .radii, .shadows, .durations, .easings]

/-- The maps of a manifest in the order of a document, each with its series. -/
def maps (m : Manifest) : List (Series × OrderedMap Text Text) :=
  (.color, m.semantic) :: (.color, m.numbered) :: order.map fun c => (.category c, m.table c)

/-- The names and literals of the maps, one map after another. -/
def named (m : Manifest) : List (Series × Text × Text) :=
  m.maps.flatMap fun (s, map) => map.entries.map fun e => (s, e)

/-- Each map is the inverse of a map of the tokens, and a document declares the names of the maps,
one map after another, with the values of their literals. -/
structure Agrees (m : Manifest) (config : Config) (tokens : TokenTables) (d : TokenDocument) :
    Prop where
  semantic : m.semantic.Inverts tokens.semantic
  numbered : m.numbered.Inverts tokens.numbered
  table : ∀ c, (m.table c).Inverts (tokens.table c)
  declared : m.named.mapM (Theme.light.line config) = .ok (d.root.filterMap DocumentLine.declared?)

section Tables

variable {tokens : TokenTables} {config : Config}
  (disabled : ∀ c : Category, ¬config.has c.feature → tokens.table c = .empty)
include disabled

theorem table_ofTokens (input : Option Text) (c : Category) :
    (ofTokens tokens config input).table c = (tokens.table c).inverse := by
  let listed := (Category.all.filter (isListed config)).map fun c => (c, (tokens.table c).inverse)
  have keys : listed.map Prod.fst = Category.all.filter (isListed config) := by
    rw [List.map_map]
    exact List.map_id _
  have distinct : (listed.map Prod.fst).Nodup := by
    rw [keys]
    exact List.Nodup.filter _ (by decide)
  have entries : (OrderedMap.ofList listed).entries = listed := OrderedMap.entries_ofList distinct
  have every : c ∈ Category.all := by cases c <;> decide
  by_cases shown : isListed config c
  · have found : (OrderedMap.ofList listed).get? c = some (tokens.table c).inverse := by
      rw [OrderedMap.get?_eq_some_iff, entries]
      exact List.mem_map.2 ⟨c, List.mem_filter.2 ⟨every, shown⟩, rfl⟩
    rw [table, ofTokens, found]
    rfl
  · have enabled : ¬config.has c.feature := by
      intro enabled
      cases c <;> first | exact shown rfl | exact shown enabled
    have missing : (OrderedMap.ofList listed).get? c = none := by
      rw [Option.eq_none_iff_forall_ne_some]
      intro map found
      have key := List.mem_map_of_mem (f := Prod.fst) (OrderedMap.mem_of_get?_eq_some found)
      rw [entries, keys] at key
      exact shown (List.mem_filter.1 key).2
    rw [table, ofTokens, missing, disabled c enabled]
    rfl

/-- The names of the maps are those of the tokens, the colors with a role before the others. -/
theorem named_ofTokens (input : Option Text)
    (colors : tokens.colors.entries = tokens.semantic.entries ++ tokens.numbered.entries)
    (semantic : tokens.semantic.values.Nodup) (numbered : tokens.numbered.values.Nodup)
    (table : ∀ c, (tokens.table c).values.Nodup) :
    (ofTokens tokens config input).named = Theme.named tokens Theme.light.series := by
  have series : Theme.light.series = .color :: order.map .category := rfl
  rw [named, maps, Theme.named, series, List.flatMap_cons, List.flatMap_cons, List.flatMap_cons,
    List.flatMap_map, List.flatMap_map]
  simp only [table_ofTokens disabled, OrderedMap.entries_inverse (table _), TokenTables.series,
    colors, List.map_append, List.map_map, List.append_assoc]
  congr 1
  · rw [ofTokens, OrderedMap.entries_inverse semantic, List.map_map]
    rfl
  · congr 1
    rw [ofTokens, OrderedMap.entries_inverse numbered, List.map_map]
    rfl

end Tables

end Manifest

namespace TokenTables

variable {candidates : Candidates} {palette : Palette} {config : Config}

theorem entries_colors (h : Palette.ofTable candidates.colors = .ok palette) :
    let t := ofCandidates candidates (.ofPalette palette) config
    t.colors.entries = t.semantic.entries ++ t.numbered.entries := by
  by_cases enabled : config.has .colors
  · exact OrderedMap.entries_foldl_insert _ _
      ((keys_colors_ofCandidates h enabled).nodup_iff.2 candidates.colors.nodup_keys)
  · simp only [ofCandidates, if_neg enabled]
    rfl

theorem entries_series_of_disabled {roles : RoleAssignment} (s : Series)
    (h : ¬config.has s.feature) :
    ((ofCandidates candidates roles config).series s).entries = [] := by
  cases s with
  | color =>
      have disabled : ¬config.has .colors := h
      simp only [series, ofCandidates, if_neg disabled]
      rfl
  | category c =>
      have disabled : ¬config.has c.feature := h
      rw [series, table_ofCandidates, nameCategory, if_neg disabled]
      rfl

end TokenTables

namespace Tokenization

/-- The manifest of every sheet that is tokenized agrees with its tokens and with its document,
whatever the settings are. -/
theorem manifest_agrees {config : Config} {t : Text} {r : Tokenization}
    (h : ofText config t = .ok r) (input : Option Text) :
    (r.manifest input).Agrees config r.tokens r.document := by
  obtain ⟨palette, hp, settings, -, -, tokens, document⟩ := exists_parts h
  have disabled : ∀ c : Category, ¬config.has c.feature → r.tokens.table c = .empty := by
    intro c none
    rw [tokens, TokenTables.table_ofCandidates, TokenTables.nameCategory, if_neg none]
  have colors := TokenTables.nodup_values_colors config hp
  have table (c : Category) : (r.tokens.table c).values.Nodup :=
    tokens ▸ TokenTables.nodup_values_table _ c
  rw [manifest, settings]
  constructor
  · exact OrderedMap.inverts_inverse (tokens ▸ colors.1)
  · exact OrderedMap.inverts_inverse (tokens ▸ colors.2)
  · intro c
    rw [Manifest.table_ofTokens disabled]
    exact OrderedMap.inverts_inverse (table c)
  · rw [Manifest.named_ofTokens disabled input (tokens ▸ TokenTables.entries_colors hp)
      (tokens ▸ colors.1) (tokens ▸ colors.2) table]
    apply Theme.mapM_line_of_declared
    · rw [tokens]
      exact TokenTables.entries_series_of_disabled
    · exact (TokenDocument.declares_ofTokens document).1.declared

theorem manifest_agrees_spacedColor : ∃ r, ofText stableRootSizes spacedColor = .ok r ∧
    (r.manifest none).Agrees stableRootSizes r.tokens r.document := by
  obtain ⟨r, h⟩ := exists_ofText_spacedColor
  exact ⟨r, h, manifest_agrees h none⟩

end Tokenization

end DesignTokens
