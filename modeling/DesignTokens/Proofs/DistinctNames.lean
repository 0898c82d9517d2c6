import DesignTokens.Proofs.FreshNames
import DesignTokens.Proofs.TokenizationFaults

/-!
Every candidate has one name, and all names differ. Within a series of tokens names are given out
one after another; names of two series differ since the prefix of a series is followed by `-` or a
digit and no default prefix begins another one, and no name of a role opens with a default prefix
in this way. Main statement: `names_each_of_ofText`.
-/
namespace DesignTokens

namespace TokenName

/-- A name that begins with `--`, the start of a series, and `-` or a digit after it. -/
structure Opens (start name : Text) : Prop where
  front : "--".toList ++ start <+: name
  next : Text.nextIs isDashOrDigit (name.drop (start.length + 2))

theorem length_front (start : Text) : ("--".toList ++ start).length = start.length + 2 := by
  rw [List.length_append, Nat.add_comm]
  rfl

theorem opens_append {start rest : Text} (h : Text.nextIs isDashOrDigit rest) :
    Opens start ("--".toList ++ start ++ rest) := by
  refine ⟨List.prefix_append _ _, ?_⟩
  rwa [List.drop_left' (length_front start)]

theorem Opens.append {start name : Text} (h : Opens start name) (more : Text) :
    Opens start (name ++ more) := by
  obtain ⟨rest, rfl⟩ := h.front
  have next := h.next
  rw [List.drop_left' (length_front start)] at next
  rw [List.append_assoc _ rest more]
  refine opens_append ?_
  cases rest with
  | nil => cases next
  | cons c rest => exact next

theorem nextIs_padNumber (width : Nat) (n : Int) :
    Text.nextIs isDashOrDigit (padNumber width n) := by
  have all := @isDashOrDigit_of_mem_padNumber width n
  cases h : padNumber width n with
  | nil =>
      have digits : Number.digits n.natAbs = [] := by
        rw [padNumber] at h
        exact (List.append_eq_nil_iff.1 h).2
      exact absurd digits Nat.toDigits_ne_nil
  | cons c rest =>
      rw [h] at all
      exact all c List.mem_cons_self

/-- A scheme whose names have `-` or a digit after its start. -/
def Parted (s : NameScheme) : Prop := s.separator = ['-'] ∨ s.separator = []

variable {s : NameScheme}

theorem Parted.opens_base (hs : Parted s) (literal : Text) (index : Int) :
    Opens s.start (s.base literal index) := by
  rw [NameScheme.base]
  split
  · exact opens_append rfl
  · rw [List.append_assoc]
    refine opens_append ?_
    rcases hs with dash | none
    · rw [dash]
      rfl
    · rw [none]
      exact nextIs_padNumber _ _

theorem Parted.opens_assign (hs : Parted s) (used : List Text) (literals : List (Text × Int)) :
    ∀ name ∈ assign s used literals, Opens s.start name :=
  forall_mem_assign hs.opens_base (fun _ _ h => h.append _) used literals

/-- Of two starts that a name opens with one begins the other. -/
theorem Opens.prefix_or_prefix {start start' name : Text} (h : Opens start name)
    (h' : Opens start' name) : start <+: start' ∨ start' <+: start := by
  have fronts := List.prefix_or_prefix_of_prefix h.front h'.front
  rwa [List.prefix_append_right_inj, List.prefix_append_right_inj] at fronts

end TokenName

open TokenName

theorem Series.mem_all (s : Series) : s ∈ all := by
  cases s with
  | color => decide
  | category c => cases c <;> decide

theorem Role.mem_all (role : Role) : role ∈ all := by
  cases role <;> decide

theorem Series.eq_of_defaultPrefix_prefix {s s' : Series}
    (h : s.defaultPrefix <+: s'.defaultPrefix) : s = s' := by
  have tested : ∀ s ∈ Series.all, ∀ s' ∈ Series.all,
      s.defaultPrefix <+: s'.defaultPrefix → s = s' := by decide
  exact tested s s.mem_all s' s'.mem_all h

theorem Series.eq_of_opens {s s' : Series} {name : Text} (h : Opens s.defaultPrefix name)
    (h' : Opens s'.defaultPrefix name) : s = s' := by
  rcases h.prefix_or_prefix h' with first | second
  · exact Series.eq_of_defaultPrefix_prefix first
  · exact (Series.eq_of_defaultPrefix_prefix second).symm

theorem Role.not_opens (role : Role) (s : Series) : ¬Opens s.defaultPrefix role.tokenName := by
  have tested : ∀ s ∈ Series.all, ∀ role ∈ Role.all,
      "--".toList ++ s.defaultPrefix <+: role.tokenName →
        ¬Text.nextIs isDashOrDigit (role.tokenName.drop (s.defaultPrefix.length + 2)) := by decide
  exact fun h => tested s s.mem_all role role.mem_all h.front h.next

theorem Role.tokenName_injective : Function.Injective tokenName := by
  have tested : ∀ role ∈ Role.all, ∀ role' ∈ Role.all,
      role.tokenName = role'.tokenName → role = role' := by decide
  exact fun role role' h => tested role role.mem_all role' role'.mem_all h

namespace TokenMap

theorem values_ofLiterals (s : NameScheme) {literals : List Text} (h : literals.Nodup) :
    (ofLiterals s literals).values =
      assign s [] (literals.zipIdx.map fun (literal, i) => (literal, (i : Int))) := by
  have length := length_assign s [] (literals.zipIdx.map fun (literal, i) => (literal, (i : Int)))
  have count : (literals.zipIdx.map fun (literal, i) => (literal, (i : Int))).length =
      literals.length := by simp
  rw [count] at length
  have keys := List.map_fst_zip (Nat.le_of_eq length.symm)
  rw [OrderedMap.values, ofLiterals, OrderedMap.entries_ofList (keys.symm ▸ h),
    List.map_snd_zip (Nat.le_of_eq length)]

theorem nodup_values_ofLiterals (s : NameScheme) {literals : List Text} (h : literals.Nodup) :
    (ofLiterals s literals).values.Nodup := by
  rw [values_ofLiterals s h]
  exact nodup_assign s [] _

theorem opens_of_mem_values {s : NameScheme} (hs : Parted s) {literals : List Text} {name : Text}
    (h : name ∈ (ofLiterals s literals).values) : Opens s.start name := by
  obtain ⟨e, he, rfl⟩ := List.mem_map.1 h
  exact hs.opens_assign _ _ _ (List.of_mem_zip (OrderedMap.mem_ofList he)).2

end TokenMap

namespace RoleAssignment

/-- Roles that are filled once give distinct names. -/
theorem nodup_values_named {a : RoleAssignment} (roles : (a.roles.map Prod.fst).Nodup)
    (distinct : ((held a.roles).map (·.literal)).Nodup) : a.named.values.Nodup := by
  rw [OrderedMap.values, entries_named distinct, List.map_filterMap, List.Nodup,
    List.pairwise_filterMap]
  rw [List.Nodup, List.pairwise_map] at roles
  refine roles.imp ?_
  rintro ⟨role, color⟩ ⟨role', color'⟩ different name hname name' hname' same
  obtain ⟨e, he, rfl⟩ := Option.map_eq_some_iff.1 hname
  obtain ⟨e', he', rfl⟩ := Option.map_eq_some_iff.1 hname'
  obtain ⟨c, -, rfl⟩ := Option.map_eq_some_iff.1 he
  obtain ⟨c', -, rfl⟩ := Option.map_eq_some_iff.1 he'
  exact different (Role.tokenName_injective same)

end RoleAssignment

namespace TokenTables

/-- The names of all tokens, series by series. -/
def names (t : TokenTables) : List Text :=
  t.semantic.values ++ t.numbered.values ++ Category.all.flatMap fun c => (t.table c).values

/-- Tables of tokens that name each candidate of the enabled features, and nothing else, each with
a name of its own. -/
structure NamesEach (t : TokenTables) (config : Config) (candidates : Candidates) : Prop where
  keys_table : ∀ c : Category, config.has c.feature →
    (t.table c).keys.Perm (candidates.table c).keys
  table_disabled : ∀ c : Category, ¬config.has c.feature → t.table c = .empty
  keys_colors : config.has .colors →
    (t.semantic.keys ++ t.numbered.keys).Perm candidates.colors.keys
  colors_disabled : ¬config.has .colors → t.semantic = .empty ∧ t.numbered = .empty
  distinct : t.names.Nodup

section Series

variable {candidates : Candidates} {roles : RoleAssignment} {config : Config}
  (prefixes : config.tokenPrefix = Config.default.tokenPrefix)
include prefixes

theorem nameStart_eq (s : Series) : config.nameStart s = s.defaultPrefix := by
  rw [Config.nameStart, prefixes]
  exact CodeText.readable_ofText _

theorem opens_of_mem_table {c : Category} {name : Text}
    (h : name ∈ ((ofCandidates candidates roles config).table c).values) :
    Opens (Series.category c).defaultPrefix name := by
  rw [table_ofCandidates, nameCategory] at h
  split at h
  · have opens := TokenMap.opens_of_mem_values (.inl rfl) h
    rwa [nameStart_eq prefixes] at opens
  · cases h

theorem opens_of_mem_numbered {name : Text}
    (h : name ∈ (ofCandidates candidates roles config).numbered.values) :
    Opens Series.color.defaultPrefix name := by
  rw [ofCandidates] at h
  split at h
  · have opens := TokenMap.opens_of_mem_values (.inr rfl) h
    rwa [nameStart_eq prefixes] at opens
  · cases h

omit prefixes in
theorem exists_role_of_mem_semantic {name : Text}
    (h : name ∈ (ofCandidates candidates roles config).semantic.values) :
    ∃ role : Role, name = role.tokenName := by
  obtain ⟨e, he, rfl⟩ := List.mem_map.1 h
  rw [ofCandidates] at he
  split at he
  · exact RoleAssignment.exists_role_of_mem_named he
  · cases he

end Series

end TokenTables

namespace RoleAssignment

variable {colors : ColorTable} {palette : Palette} (h : Palette.ofTable colors = .ok palette)
include h

theorem nodup_literals :
    ((held (ofPalette palette).roles).map (·.literal)).Nodup ∧
      ((ofPalette palette).unassigned.map (·.literal)).Nodup := by
  have distinct := (literals_perm h).nodup_iff.2 colors.nodup_keys
  rw [List.map_append] at distinct
  exact ⟨(List.nodup_append.1 distinct).1, (List.nodup_append.1 distinct).2.1⟩

theorem nodup_values_named_ofPalette : (ofPalette palette).named.values.Nodup := by
  have roles : (ofPalette palette).roles.map Prod.fst = Role.all := fill_roles [] palette Role.all
  exact nodup_values_named (roles ▸ by decide) (nodup_literals h).1

end RoleAssignment

namespace TokenTables

variable {candidates : Candidates} {palette : Palette} {config : Config}

theorem nodup_values_table (roles : RoleAssignment) (c : Category) :
    ((ofCandidates candidates roles config).table c).values.Nodup := by
  rw [table_ofCandidates, nameCategory]
  split
  · exact TokenMap.nodup_values_ofLiterals _ (c.nodup_order _ _)
  · exact List.nodup_nil

theorem keys_colors_ofCandidates (h : Palette.ofTable candidates.colors = .ok palette)
    (enabled : config.has .colors) :
    let t := ofCandidates candidates (.ofPalette palette) config
    (t.semantic.keys ++ t.numbered.keys).Perm candidates.colors.keys := by
  have distinct := RoleAssignment.nodup_literals h
  simp only [ofCandidates, if_pos enabled, nameColors]
  rw [RoleAssignment.keys_named distinct.1, TokenMap.keys_ofLiterals _ distinct.2,
    ← List.map_append]
  exact RoleAssignment.literals_perm h

theorem nodup_values_colors (config : Config)
    (h : Palette.ofTable candidates.colors = .ok palette) :
    let t := ofCandidates candidates (.ofPalette palette) config
    t.semantic.values.Nodup ∧ t.numbered.values.Nodup := by
  by_cases enabled : config.has .colors
  · simp only [ofCandidates, if_pos enabled]
    exact ⟨RoleAssignment.nodup_values_named_ofPalette h,
      TokenMap.nodup_values_ofLiterals _ (RoleAssignment.nodup_literals h).2⟩
  · simp only [ofCandidates, if_neg enabled]
    exact ⟨List.nodup_nil, List.nodup_nil⟩

theorem nodup_names (h : Palette.ofTable candidates.colors = .ok palette)
    (prefixes : config.tokenPrefix = Config.default.tokenPrefix) :
    (ofCandidates candidates (.ofPalette palette) config).names.Nodup := by
  have ⟨semantic, numbered⟩ := nodup_values_colors config h
  have categories : (Category.all.flatMap fun c =>
      ((ofCandidates candidates (.ofPalette palette) config).table c).values).Nodup := by
    refine List.nodup_flatMap.2 ⟨fun c _ => nodup_values_table _ c, ?_⟩
    have different : Category.all.Nodup := by decide
    refine different.imp fun ne name hname hname' => ne ?_
    have same := Series.eq_of_opens (opens_of_mem_table prefixes hname)
      (opens_of_mem_table prefixes hname')
    exact Series.category.inj same
  rw [names, List.nodup_append, List.nodup_append]
  refine ⟨⟨semantic, numbered, ?_⟩, categories, ?_⟩
  · intro name hname name' hname' same
    obtain ⟨role, rfl⟩ := exists_role_of_mem_semantic hname
    exact role.not_opens _ (same ▸ opens_of_mem_numbered prefixes hname')
  · intro name hname name' hname' same
    obtain ⟨c, -, hname'⟩ := List.mem_flatMap.1 hname'
    have opens := opens_of_mem_table prefixes hname'
    rcases List.mem_append.1 hname with hname | hname
    · obtain ⟨role, rfl⟩ := exists_role_of_mem_semantic hname
      exact role.not_opens _ (same ▸ opens)
    · cases Series.eq_of_opens (opens_of_mem_numbered prefixes hname) (same ▸ opens)

theorem namesEach_ofCandidates (h : Palette.ofTable candidates.colors = .ok palette)
    (prefixes : config.tokenPrefix = Config.default.tokenPrefix) :
    (ofCandidates candidates (.ofPalette palette) config).NamesEach config candidates := by
  refine ⟨fun c => keys_table_perm, ?_, keys_colors_ofCandidates h, ?_, nodup_names h prefixes⟩
  · intro c disabled
    rw [table_ofCandidates, nameCategory, if_neg disabled]
  · intro disabled
    simp [ofCandidates, disabled]

end TokenTables

namespace Tokenization

/-- With the default prefixes the tokens of every sheet name each of its candidates once. -/
theorem names_each_of_ofText {config : Config} {t : Text} {r : Tokenization}
    (h : ofText config t = .ok r) (prefixes : config.tokenPrefix = Config.default.tokenPrefix) :
    r.tokens.NamesEach config r.candidates := by
  obtain ⟨palette, hp, -, -, -, tokens, -⟩ := exists_parts h
  rw [tokens]
  exact TokenTables.namesEach_ofCandidates hp prefixes

/-- Settings for names made from digests. -/
def stableNames : Config := { naming := .stable }

/-- A sheet with two spacings of one short digest. -/
def oneDigest : Text := "a\x7bmargin:6369rem 323012rem\x7d".toList

theorem names_each_oneDigest :
    ∃ r, ofText stableNames oneDigest = .ok r ∧
      stableNames.tokenPrefix = Config.default.tokenPrefix ∧
      (∀ literal ∈ ["6369rem".toList, "323012rem".toList],
        literal ∈ (r.candidates.table .spacing).keys ∧
          Text.shortDigest literal = "e43e7042".toList) ∧
      r.tokens.NamesEach stableNames r.candidates := by
  have parsed : Declaration.parse oneDigest =
      [⟨"a".toList, "margin".toList, "6369rem 323012rem".toList⟩] := by cbv
  have made : ∃ r, ofText stableNames oneDigest = .ok r := by
    refine exists_ofText_of_colorless ?_ fun prefers => Bool.noConfusion prefers
    change ∀ d ∈ Declaration.parse oneDigest, _
    rw [parsed, List.forall_mem_singleton]
    decide +kernel
  obtain ⟨r, h⟩ := made
  refine ⟨r, h, rfl, ?_, names_each_of_ofText h rfl⟩
  obtain ⟨palette, -, -, converted, candidates, -⟩ := exists_parts h
  have same : r.converted = oneDigest := converted
  have found : ((Candidates.collect (Declaration.parse oneDigest)).table .spacing).keys =
      ["6369rem".toList, "323012rem".toList] := by
    rw [parsed]
    decide +kernel
  rw [candidates, same, found]
  decide +kernel

end Tokenization

end DesignTokens
