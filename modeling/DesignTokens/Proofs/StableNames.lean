import DesignTokens.Proofs.ManifestMaps

/-!
Names made from digests depend on the literal alone. An ending puts a hyphen after the digest, so it
never makes the base name of another literal; a base name is taken only by a literal with the same
digest. Two sheets that share a literal give it one name, unless one of them has another literal of
this digest. Main statement: `get?_series_of_alone`.
-/
namespace DesignTokens

theorem Text.dash_notMem_shortDigest (literal : Text) : '-' ∉ shortDigest literal := by
  have digits : '-' ∉ "0123456789abcdef".toList := by decide
  intro dash
  obtain ⟨b, -, dash⟩ := List.mem_flatMap.1 dash
  exact digits (mem_of_mem_hexDigits _ dash)

namespace NameScheme

/-- The name of a literal that no other literal of its series shares a digest with. -/
def stableName (start literal : Text) : Text :=
  "--".toList ++ start ++ '-' :: Text.shortDigest literal

variable {s : NameScheme}

theorem base_of_stable (stable : s.mode = .stable) (literal : Text) (index : Int) :
    s.base literal index = stableName s.start literal := by
  rw [base, stable]
  rfl

theorem stableName_ne {start literal other : Text}
    (digest : Text.shortDigest other ≠ Text.shortDigest literal) :
    stableName start other ≠ stableName start literal := by
  intro same
  exact digest (List.cons.inj (List.append_cancel_left same)).2

theorem suffixed_ne_stableName (start literal other : Text) (n : Nat) :
    TokenName.suffixed (stableName start other) n ≠ stableName start literal := by
  intro same
  rw [TokenName.suffixed, stableName, stableName, List.append_assoc _ _ ('-' :: _)] at same
  have digest := (List.cons.inj (List.append_cancel_left same)).2
  have dash : '-' ∈ Text.shortDigest other ++ '-' :: Number.digits n := by simp
  exact Text.dash_notMem_shortDigest literal (digest ▸ dash)

/-- The name of a literal is left free by literals of other digests. -/
theorem fresh_ne_stableName {start literal other : Text}
    (digest : Text.shortDigest other ≠ Text.shortDigest literal) (used : List Text) :
    TokenName.fresh (stableName start other) used ≠ stableName start literal :=
  TokenName.of_fresh (P := fun name => name ≠ stableName start literal) (stableName_ne digest)
    (suffixed_ne_stableName start literal other) used

end NameScheme

open NameScheme

/-- Along a whole series the name stays free until the literal comes and takes it. -/
theorem TokenName.mem_zip_assign {s : NameScheme} (stable : s.mode = .stable) {literal : Text}
    {items : List (Text × Int)} {used : List Text} (free : stableName s.start literal ∉ used)
    (mem : literal ∈ items.map Prod.fst)
    (alone : ∀ other ∈ items.map Prod.fst,
      Text.shortDigest other = Text.shortDigest literal → other = literal) :
    (literal, stableName s.start literal) ∈ (items.map Prod.fst).zip (assign s used items) := by
  induction items generalizing used with
  | nil => cases mem
  | cons item items ih =>
      obtain ⟨first, index⟩ := item
      rw [List.map_cons, assign, List.zip_cons_cons, base_of_stable stable]
      by_cases here : first = literal
      · subst here
        rw [fresh, if_neg free]
        exact List.mem_cons_self
      · have digest : Text.shortDigest first ≠ Text.shortDigest literal :=
          fun same => here (alone first List.mem_cons_self same)
        have later : literal ∈ items.map Prod.fst :=
          (List.mem_cons.1 mem).resolve_left fun same => here same.symm
        have free : stableName s.start literal ∉
            used ++ [fresh (stableName s.start first) used] := by
          rw [List.mem_append, List.mem_singleton, not_or]
          exact ⟨free, (fresh_ne_stableName digest used).symm⟩
        exact List.mem_cons_of_mem _
          (ih free later fun other ho => alone other (List.mem_cons_of_mem _ ho))

theorem TokenMap.get?_ofLiterals_of_stable {s : NameScheme} (stable : s.mode = .stable)
    {literals : List Text} (nodup : literals.Nodup) {literal : Text} (mem : literal ∈ literals)
    (alone : ∀ other ∈ literals,
      Text.shortDigest other = Text.shortDigest literal → other = literal) :
    (ofLiterals s literals).get? literal = some (stableName s.start literal) := by
  let items := literals.zipIdx.map fun item => (item.1, (item.2 : Int))
  have keys : items.map Prod.fst = literals := by
    rw [List.map_map]
    exact List.zipIdx_map_fst 0 literals
  have length := TokenName.length_assign s [] items
  have fit : literals.length = (TokenName.assign s [] items).length := by
    rw [length, ← keys, List.length_map]
  have zipped := List.map_fst_zip (Nat.le_of_eq fit)
  have free : stableName s.start literal ∉ ([] : List Text) := List.not_mem_nil
  have named := TokenName.mem_zip_assign stable free (keys.symm ▸ mem) (keys.symm ▸ alone)
  rw [OrderedMap.get?_eq_some_iff, ofLiterals, OrderedMap.entries_ofList (zipped.symm ▸ nodup)]
  rwa [keys] at named

/-- The literals that a sheet has for a series. -/
def Candidates.inSeries (t : Candidates) : Series → List Text
  | .color => t.colors.keys
  | .category c => (t.table c).keys

namespace TokenTables

variable {candidates : Candidates} {palette : Palette} {config : Config} {literal : Text}

theorem get?_table_of_stable (roles : RoleAssignment) {c : Category}
    (enabled : config.has c.feature) (stable : config.naming = .stable)
    (mem : literal ∈ (candidates.table c).keys)
    (alone : ∀ other ∈ (candidates.table c).keys,
      Text.shortDigest other = Text.shortDigest literal → other = literal) :
    ((ofCandidates candidates roles config).table c).get? literal =
      some (stableName (config.nameStart (.category c)) literal) := by
  have perm := c.order_perm config.bases (candidates.table c)
  rw [table_ofCandidates, nameCategory, if_pos enabled]
  exact TokenMap.get?_ofLiterals_of_stable stable (c.nodup_order _ _) (perm.mem_iff.2 mem)
    fun other ho => alone other (perm.mem_iff.1 ho)

/-- Numbered colors are some of the colors of a table, and no role names one of them again. -/
theorem get?_colors_of_stable (hp : Palette.ofTable candidates.colors = .ok palette)
    (stable : config.naming = .stable)
    (numbered : literal ∈ (ofCandidates candidates (.ofPalette palette) config).numbered.keys)
    (alone : ∀ other ∈ candidates.colors.keys,
      Text.shortDigest other = Text.shortDigest literal → other = literal) :
    (ofCandidates candidates (.ofPalette palette) config).colors.get? literal =
      some (stableName (config.nameStart .color) literal) := by
  let free := (RoleAssignment.ofPalette palette).unassigned.map (·.literal)
  have distinct : free.Nodup := (RoleAssignment.nodup_literals hp).2
  have inside : ∀ other ∈ free, other ∈ candidates.colors.keys := by
    intro other ho
    rw [← (RoleAssignment.literals_perm hp).mem_iff, List.map_append]
    exact List.mem_append_right _ ho
  rw [OrderedMap.get?_eq_some_iff, entries_colors hp]
  refine List.mem_append_right _ ?_
  rw [ofCandidates] at numbered ⊢
  split_ifs at numbered ⊢ with enabled
  · rw [nameColors, TokenMap.keys_ofLiterals _ distinct] at numbered
    rw [← OrderedMap.get?_eq_some_iff]
    exact TokenMap.get?_ofLiterals_of_stable stable distinct numbered
      fun other ho => alone other (inside other ho)
  · cases numbered

end TokenTables

namespace Tokenization

/-- A candidate for a series, numbered if it is a color, with a digest that no other candidate for
the series has. -/
structure Alone (r : Tokenization) (s : Series) (literal : Text) : Prop where
  candidate : literal ∈ r.candidates.inSeries s
  numbered : s = .color → literal ∈ r.tokens.numbered.keys
  digest : ∀ other ∈ r.candidates.inSeries s,
    Text.shortDigest other = Text.shortDigest literal → other = literal

/-- One run: the name is made from the prefix and the digest. -/
theorem get?_series_of_stable {config : Config} {t : Text} {r : Tokenization}
    (h : ofText config t = .ok r) (stable : config.naming = .stable) {s : Series} {literal : Text}
    (alone : r.Alone s literal) :
    (r.tokens.series s).get? literal =
      if config.has s.feature then some (stableName (config.nameStart s) literal) else none := by
  obtain ⟨palette, hp, -, -, -, tokens, -⟩ := exists_parts h
  have ⟨candidate, numbered, digest⟩ := alone
  rw [tokens] at numbered ⊢
  split_ifs with enabled
  · cases s with
    | color => exact TokenTables.get?_colors_of_stable hp stable (numbered rfl) digest
    | category c => exact TokenTables.get?_table_of_stable _ enabled stable candidate digest
  · rw [OrderedMap.get?, TokenTables.entries_series_of_disabled s enabled]
    rfl

/-- Two sheets that are named with digests and one prefix give a literal that is alone in both the
same name, wherever the series is enabled. -/
theorem get?_series_of_alone {config config' : Config} {t t' : Text} {r r' : Tokenization}
    (h : ofText config t = .ok r) (h' : ofText config' t' = .ok r')
    (stable : config.naming = .stable) (stable' : config'.naming = .stable) {s : Series}
    (prefixes : config.tokenPrefix s = config'.tokenPrefix s) {literal : Text}
    (alone : r.Alone s literal) (alone' : r'.Alone s literal) :
    ∃ name, name = "--".toList ++ config.nameStart s ++ '-' :: Text.shortDigest literal ∧
      (r.tokens.series s).get? literal = (if config.has s.feature then some name else none) ∧
      (r'.tokens.series s).get? literal = if config'.has s.feature then some name else none := by
  have start : config.nameStart s = config'.nameStart s := congrArg CodeText.readable prefixes
  refine ⟨_, rfl, get?_series_of_stable h stable alone, ?_⟩
  rw [start]
  exact get?_series_of_stable h' stable' alone'

/-- A sheet without colors is tokenized as it is, if there is nothing to convert. -/
theorem exists_ofText_of_parse (config : Config) {t : Text} {declarations : List Declaration}
    (unconverted : config.conversions = []) (pixels : config.prefersRootSizes = false)
    (parsed : Declaration.parse t = declarations)
    (colorless : ∀ d ∈ declarations, Color.literals d.value = []) :
    ∃ r, ofText config t = .ok r ∧ r.candidates = Candidates.collect declarations := by
  have same : Conversion.convertSheet config.bases config.conversions t = t := by
    rw [unconverted]
    rfl
  obtain ⟨r, h⟩ := exists_ofText_of_colorless (same.symm ▸ parsed.symm ▸ colorless)
    fun prefers => absurd prefers (by simp [pixels])
  obtain ⟨-, -, -, converted, candidates, -⟩ := exists_parts h
  exact ⟨r, h, by rw [candidates, converted, same, parsed]⟩

/-- Settings for stable names of spacings alone. -/
def stableSpacings : Config := { features := [.spacing], naming := .stable }

theorem get?_series_eightPixels : ∃ r r',
    ofText stableNames "a\x7bmargin:4px 8px\x7d".toList = .ok r ∧
      ofText stableSpacings "b\x7bpadding:8px 6369rem 323012rem\x7d".toList = .ok r' ∧
      stableNames.naming = .stable ∧ stableSpacings.naming = .stable ∧
      stableNames.tokenPrefix (.category .spacing) =
        stableSpacings.tokenPrefix (.category .spacing) ∧
      r.Alone (.category .spacing) "8px".toList ∧ r'.Alone (.category .spacing) "8px".toList ∧
      ∃ name, name = "--space-4e01dbcf".toList ∧
        (r.tokens.series (.category .spacing)).get? "8px".toList = some name ∧
        (r'.tokens.series (.category .spacing)).get? "8px".toList = some name := by
  have parsed : Declaration.parse "a\x7bmargin:4px 8px\x7d".toList =
      [⟨"a".toList, "margin".toList, "4px 8px".toList⟩] := by cbv
  have parsed' : Declaration.parse "b\x7bpadding:8px 6369rem 323012rem\x7d".toList =
      [⟨"b".toList, "padding".toList, "8px 6369rem 323012rem".toList⟩] := by cbv
  obtain ⟨r, h, candidates⟩ :=
    exists_ofText_of_parse stableNames rfl rfl parsed (by decide +kernel)
  obtain ⟨r', h', candidates'⟩ :=
    exists_ofText_of_parse stableSpacings rfl rfl parsed' (by decide +kernel)
  have noColor (h : Series.category .spacing = .color) : False := Series.noConfusion h
  have alone : r.Alone (.category .spacing) "8px".toList :=
    ⟨candidates ▸ (by decide +kernel), fun h => (noColor h).elim, candidates ▸ (by decide +kernel)⟩
  have alone' : r'.Alone (.category .spacing) "8px".toList :=
    ⟨candidates' ▸ (by decide +kernel), fun h => (noColor h).elim,
      candidates' ▸ (by decide +kernel)⟩
  obtain ⟨name, spelled, named, named'⟩ := get?_series_of_alone h h' rfl rfl rfl alone alone'
  exact ⟨r, r', h, h', rfl, rfl, rfl, alone, alone', name, spelled.trans (by decide +kernel),
    named, named'⟩

end Tokenization

end DesignTokens
