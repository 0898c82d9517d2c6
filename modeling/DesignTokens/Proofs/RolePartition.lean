import DesignTokens.Proofs.OrderedMaps
import DesignTokens.Proofs.Results
import DesignTokens.Proofs.TextOrder
import DesignTokens.Token.Tables

/-!
Roles and the rest partition the palette. Whatever the scores are, a role takes one of the colors
that are free or none, and the color is not free any more; so the colors that roles hold and the
free ones are always the colors of the palette. Main statement: `roles_partition`.
-/
namespace DesignTokens

namespace Palette

theorem better_mem (score : PaletteColor → Float) (a b : PaletteColor) :
    better score a b = a ∨ better score a b = b := by
  unfold better
  split
  · exact .inr rfl
  · exact .inl rfl

theorem foldl_better_mem (score : PaletteColor → Float) (c : PaletteColor) (rest : Palette) :
    rest.foldl (better score) c ∈ c :: rest := by
  induction rest generalizing c with
  | nil => simp
  | cons d rest ih =>
      have chosen := ih (better score c d)
      rcases better_mem score c d with h | h <;> rw [h] at chosen <;> grind

theorem mem_of_best? {score : PaletteColor → Float} {free : Palette} {c : PaletteColor}
    (h : free.best? score = some c) : c ∈ free := by
  cases free with
  | nil => cases h
  | cons d rest =>
      cases h
      exact foldl_better_mem score d rest

theorem mem_of_best?_filter {score : PaletteColor → Float} {suits : PaletteColor → Bool}
    {free : Palette} {c : PaletteColor} (h : Palette.best? score (free.filter suits) = some c) :
    c ∈ free := List.mem_of_mem_filter (mem_of_best? h)

theorem literals_ofTable {colors : ColorTable} {palette : Palette}
    (h : ofTable colors = .ok palette) : palette.map (·.literal) = colors.keys := by
  have literal {entry : Text × ColorCandidate} {c : PaletteColor}
      (h : PaletteColor.ofCandidate entry.1 entry.2 = .ok c) : c.literal = entry.1 := by
    obtain ⟨color, -, h⟩ := exists_of_bind_eq_ok h
    obtain ⟨hsl, -, h⟩ := exists_of_bind_eq_ok h
    cases h
    rfl
  have made := forall₂_of_mapM_eq_ok h
  rw [OrderedMap.keys]
  clear h
  generalize colors.entries = entries at made ⊢
  induction made with
  | nil => rfl
  | cons hc _ ih => rw [List.map_cons, List.map_cons, literal hc, ih]

end Palette

namespace RoleAssignment

theorem mem_of_choose? {suits : PaletteColor → Bool} {score : PaletteColor → Float}
    {free : Palette} {c : PaletteColor} (h : choose? suits score free = some c) : c ∈ free := by
  obtain ⟨best, -⟩ := Option.filter_eq_some_iff.1 h
  exact Palette.mem_of_best?_filter best

theorem mem_of_pick? {filled : List (Role × Option PaletteColor)} {free : Palette} {role : Role}
    {c : PaletteColor} (h : pick? filled free role = some c) : c ∈ free := by
  cases role with
  | foreground | disabled =>
      rw [pick?, Option.orElse_eq_or, Option.or_eq_some_iff] at h
      rcases h with best | ⟨-, best⟩
      · exact mem_of_choose? best
      · exact Palette.mem_of_best? best
  | background | outline => exact Palette.mem_of_best? h
  | primary | secondary | accent | border | surface1 | surface2 | muted =>
      exact Palette.mem_of_best?_filter h

/-- The colors that roles hold. -/
def held (roles : List (Role × Option PaletteColor)) : Palette := roles.filterMap Prod.snd

theorem taken_perm {free : Palette} (distinct : (free.map (·.literal)).Nodup)
    {taken : Option PaletteColor} (h : ∀ c, taken = some c → c ∈ free) :
    (taken.toList ++ without taken free).Perm free := by
  cases taken with
  | none => exact .refl _
  | some c =>
      obtain ⟨front, back, rfl⟩ := List.append_of_mem (h c rfl)
      have others : ∀ d ∈ front ++ back, (d.literal != c.literal) = true := by
        intro d hd
        have first := (List.perm_middle.map PaletteColor.literal).nodup_iff.1 distinct
        rw [List.map_cons, List.nodup_cons] at first
        simpa using fun same => first.1 (List.mem_map.2 ⟨d, hd, same⟩)
      have rest : without (some c) (front ++ c :: back) = front ++ back := by
        rw [without, Option.elim_some, List.filter_append, List.filter_cons_of_neg (by simp),
          ← List.filter_append, List.filter_eq_self]
        exact others
      rw [rest, Option.toList_some, List.singleton_append]
      exact List.perm_middle.symm

theorem without_sublist (taken : Option PaletteColor) (free : Palette) :
    (without taken free).Sublist free := by
  cases taken with
  | none => exact .refl _
  | some c => exact List.filter_sublist

/-- The step of an assignment: a role is filled and its color is not free any more. -/
theorem fill_cons (filled : List (Role × Option PaletteColor)) (free : Palette) (role : Role)
    (rest : List Role) :
    fill filled free (role :: rest) =
      fill (filled ++ [(role, pick? filled free role)])
        (without (pick? filled free role) free) rest := rfl

theorem fill_roles (filled : List (Role × Option PaletteColor)) (free : Palette)
    (roles : List Role) :
    (fill filled free roles).1.map Prod.fst = filled.map Prod.fst ++ roles := by
  induction roles generalizing filled free with
  | nil => simp [fill]
  | cons role rest ih => simp [fill_cons, ih]

theorem fill_perm (filled : List (Role × Option PaletteColor)) {free : Palette}
    (distinct : (free.map (·.literal)).Nodup) (roles : List Role) :
    (held (fill filled free roles).1 ++ (fill filled free roles).2).Perm (held filled ++ free) := by
  induction roles generalizing filled free with
  | nil => exact .refl _
  | cons role rest ih =>
      have step := @taken_perm _ distinct (pick? filled free role) fun c => mem_of_pick?
      have distinct' := ((without_sublist (pick? filled free role) free).map _).nodup distinct
      rw [fill_cons]
      refine (ih _ distinct').trans ?_
      have taken : held (filled ++ [(role, pick? filled free role)]) =
          held filled ++ (pick? filled free role).toList := by
        cases pick? filled free role <;> simp [held]
      rw [taken, List.append_assoc]
      exact step.append_left _

theorem ranksBefore_iff {a b : PaletteColor} : ranksBefore a b ↔
    b.count < a.count ∨ a.count = b.count ∧ Text.precedes a.literal b.literal := by
  simp [ranksBefore]

theorem ranksBefore_total (a b : PaletteColor) : ranksBefore a b || ranksBefore b a := by
  rw [Bool.or_eq_true, ranksBefore_iff, ranksBefore_iff]
  rcases Nat.lt_trichotomy a.count b.count with fewer | same | more
  · exact .inr (.inl fewer)
  · exact (Text.precedes_total a.literal b.literal).imp (.inr ⟨same, ·⟩) (.inr ⟨same.symm, ·⟩)
  · exact .inl (.inl more)

theorem ranksBefore_trans (a b c : PaletteColor) (h : ranksBefore a b) (k : ranksBefore b c) :
    ranksBefore a c := by
  rw [ranksBefore_iff] at *
  rcases h with more | ⟨same, before⟩
  · left
    omega
  · rcases k with more' | ⟨same', before'⟩
    · left
      omega
    · exact .inr ⟨same.trans same', Text.precedes_trans before before'⟩

/-- Descending count, and ascending literal where the counts are equal. -/
theorem pairwise_mergeSort {free : Palette} (distinct : (free.map (·.literal)).Nodup) :
    (free.mergeSort ranksBefore).Pairwise fun a b =>
      b.count < a.count ∨ a.count = b.count ∧ a.literal < b.literal := by
  have sorted := List.pairwise_mergeSort ranksBefore_trans ranksBefore_total free
  have distinct' := ((List.mergeSort_perm free ranksBefore).map PaletteColor.literal).nodup_iff.2
    distinct
  rw [List.Nodup, List.pairwise_map] at distinct'
  refine (sorted.and distinct').imp ?_
  rintro a b ⟨ranked, different⟩
  exact (ranksBefore_iff.1 ranked).imp_right fun ⟨same, before⟩ =>
    ⟨same, Text.lt_of_precedes before different⟩

theorem entries_named {a : RoleAssignment} (distinct : ((held a.roles).map (·.literal)).Nodup) :
    a.named.entries = a.roles.filterMap fun (role, color) =>
      color.map fun c => (c.literal, role.tokenName) := by
  have keys : (a.roles.filterMap fun (role, color) =>
      color.map fun c => (c.literal, role.tokenName)).map Prod.fst =
        (held a.roles).map (·.literal) := by
    rw [held, List.map_filterMap, List.map_filterMap]
    refine List.filterMap_congr ?_
    rintro ⟨role, color⟩ -
    cases color <;> rfl
  exact OrderedMap.entries_ofList (keys ▸ distinct)

theorem keys_named {a : RoleAssignment} (distinct : ((held a.roles).map (·.literal)).Nodup) :
    a.named.keys = (held a.roles).map (·.literal) := by
  rw [OrderedMap.keys, entries_named distinct, held, List.map_filterMap, List.map_filterMap]
  refine List.filterMap_congr ?_
  rintro ⟨role, color⟩ -
  cases color <;> rfl

theorem literals_perm {colors : ColorTable} {palette : Palette}
    (h : Palette.ofTable colors = .ok palette) :
    ((held (ofPalette palette).roles ++ (ofPalette palette).unassigned).map (·.literal)).Perm
      colors.keys := by
  have literals := Palette.literals_ofTable h
  have distinct : (palette.map (·.literal)).Nodup := literals ▸ colors.nodup_keys
  have filled : (held (ofPalette palette).roles ++ (fill [] palette Role.all).2).Perm palette :=
    fill_perm [] distinct Role.all
  have ranked : (ofPalette palette).unassigned.Perm (fill [] palette Role.all).2 :=
    List.mergeSort_perm _ _
  exact literals ▸ ((ranked.append_left _).trans filled).map _

theorem pick?_nil (filled : List (Role × Option PaletteColor)) (role : Role) :
    pick? filled [] role = none := by
  cases role <;> rfl

theorem fill_nil (filled : List (Role × Option PaletteColor)) (roles : List Role) :
    fill filled [] roles = (filled ++ roles.map fun role => (role, none), []) := by
  induction roles generalizing filled with
  | nil => rw [fill, List.map_nil, List.append_nil]
  | cons role roles ih =>
      rw [fill, pick?_nil]
      change fill _ [] roles = _
      rw [ih]
      simp

theorem pick?_foreground_single {c : PaletteColor} (hc : c.literal ≠ []) :
    pick? [] [c] .foreground = some c := by
  have ne : c.literal.isEmpty = false := by simpa using hc
  rw [pick?, choose?]
  cases h : c.isNearGray with
  | true => simp [List.filter, h, Palette.best?, Option.filter, ne]
  | false => simp [List.filter, h, Palette.best?]

/-- A palette of one color has it in the foreground. -/
theorem ofPalette_single {c : PaletteColor} (hc : c.literal ≠ []) :
    ofPalette [c] = ⟨(.foreground, some c) :: Role.all.tail.map fun role => (role, none), []⟩ := by
  have rest : without (some c) [c] = [] := by simp [without]
  rw [ofPalette, Role.all, fill, pick?_foreground_single hc, rest, fill_nil]
  simp

/-- Roles and the rest partition a table of colors: every role has its entry, each literal is held
by one role or is left over, the rest is ranked, and the color tokens have the literals as keys. -/
structure Partitions (a : RoleAssignment) (colors : ColorTable) (tokens : TokenTables) : Prop where
  every_role : a.roles.map Prod.fst = Role.all
  perm : ((held a.roles ++ a.unassigned).map (·.literal)).Perm colors.keys
  nodup : ((held a.roles ++ a.unassigned).map (·.literal)).Nodup
  ranked : a.unassigned.Pairwise fun a b =>
    b.count < a.count ∨ a.count = b.count ∧ a.literal < b.literal
  disjoint : tokens.semantic.keys.Disjoint tokens.numbered.keys
  union : ∀ literal, literal ∈ tokens.semantic.keys ∨ literal ∈ tokens.numbered.keys ↔
    literal ∈ colors.keys

theorem roles_partition {colors : ColorTable} {palette : Palette}
    (h : Palette.ofTable colors = .ok palette) (candidates : Candidates) {config : Config}
    (hcolors : config.has .colors) :
    (ofPalette palette).Partitions colors
      (TokenTables.ofCandidates candidates (ofPalette palette) config) := by
  let a := ofPalette palette
  let tokens := TokenTables.ofCandidates candidates a config
  have ranked : a.unassigned.Perm (fill [] palette Role.all).2 := List.mergeSort_perm _ _
  have perm : ((held a.roles ++ a.unassigned).map (·.literal)).Perm colors.keys := literals_perm h
  have nodup := perm.nodup_iff.2 colors.nodup_keys
  have parts := nodup
  rw [List.map_append, List.nodup_append] at parts
  have semantic : tokens.semantic.keys = (held a.roles).map (·.literal) := by
    rw [← keys_named parts.1]
    simp [tokens, TokenTables.ofCandidates, hcolors]
  have numbered : tokens.numbered.keys = a.unassigned.map (·.literal) := by
    have named := TokenMap.keys_ofLiterals ⟨config.nameStart .color, config.naming, 2, []⟩ parts.2.1
    simpa [tokens, TokenTables.ofCandidates, TokenTables.nameColors, hcolors] using named
  refine ⟨fill_roles [] palette Role.all, perm, nodup, ?_, ?_, ?_⟩
  · have free := (ranked.map PaletteColor.literal).nodup_iff.1 parts.2.1
    exact pairwise_mergeSort free
  · rw [semantic, numbered]
    intro literal hs hn
    exact parts.2.2 literal hs literal hn rfl
  · intro literal
    rw [semantic, numbered, ← perm.mem_iff, List.map_append, List.mem_append]

/-- A gray, a word that is read as black, and a vivid color. -/
def threeColors : ColorTable :=
  .ofList [("#000".toList, { count := 2 }), ("red".toList, { count := 2 }),
    ("#f00".toList, { count := 3 })]

theorem roles_partition_threeColors : Config.default.has .colors ∧
    ∃ palette, Palette.ofTable threeColors = .ok palette ∧
      (ofPalette palette).Partitions threeColors
        (TokenTables.ofCandidates .empty (ofPalette palette) .default) := by
  have hcolors : Config.default.has .colors := by decide
  have made : (Palette.ofTable threeColors).toOption.isSome := by decide +kernel
  refine ⟨hcolors, ?_⟩
  cases h : Palette.ofTable threeColors with
  | error e =>
      rw [h] at made
      cases made
  | ok palette => exact ⟨palette, rfl, roles_partition h .empty hcolors⟩

end RoleAssignment

end DesignTokens
