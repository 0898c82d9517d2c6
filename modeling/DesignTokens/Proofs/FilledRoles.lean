import DesignTokens.Proofs.RolePartition

/-!
Roles that stay empty. A role takes a color whenever one of the free colors suits it, and a color
that is left over in the end was free all along; so a color that is left over suits no role that is
empty, whatever the scores are. Main statement: `isSome_holder_of_unassigned`.
-/
namespace DesignTokens

theorem Palette.isSome_best?_filter {free : Palette} {c : PaletteColor}
    {suits : PaletteColor → Bool} (mem : c ∈ free) (fits : suits c = true)
    (score : PaletteColor → Float) : (Palette.best? score (free.filter suits)).isSome := by
  have kept : c ∈ free.filter suits := List.mem_filter.2 ⟨mem, fits⟩
  cases h : free.filter suits with
  | nil =>
      rw [h] at kept
      cases kept
  | cons d rest => rfl

theorem Palette.isSome_best? {free : Palette} {c : PaletteColor} (mem : c ∈ free)
    (score : PaletteColor → Float) : (free.best? score).isSome := by
  have all : (Palette.best? score (free.filter fun _ => true)).isSome :=
    isSome_best?_filter mem rfl score
  rwa [List.filter_true] at all

namespace RoleAssignment

variable {roles filled : List (Role × Option PaletteColor)} {free : Palette} {c : PaletteColor}
  {role : Role}

/-- What a color has to be for a role, beside the colors that other roles hold. -/
def suits (roles : List (Role × Option PaletteColor)) (c : PaletteColor) : Role → Bool
  | .foreground | .background | .outline | .disabled => true
  | .border | .surface1 | .surface2 | .muted => c.isNearGray
  | .primary => c.isVivid
  | .secondary => c.isVivid && c.isApartFrom (holder? .primary roles)
  | .accent =>
    c.isVivid && c.isApartFrom (holder? .primary roles) && c.isApartFrom (holder? .secondary roles)

/-- A role takes one of the free colors if any of them suits it. -/
theorem isSome_pick? (mem : c ∈ free) (fits : suits filled c role = true) :
    (pick? filled free role).isSome := by
  cases role with
  | foreground | disabled =>
      rw [pick?, Option.orElse_eq_or, Option.isSome_or, Palette.isSome_best? mem, Bool.or_true]
  | background | outline => exact Palette.isSome_best? mem _
  | primary | secondary | accent | border | surface1 | surface2 | muted =>
      exact Palette.isSome_best?_filter mem fits _

/-- The roles that are filled stay as they are. -/
theorem prefix_fill (filled : List (Role × Option PaletteColor)) (free : Palette)
    (rest : List Role) : filled <+: (fill filled free rest).1 := by
  induction rest generalizing filled free with
  | nil => exact List.prefix_rfl
  | cons role rest ih =>
      rw [fill_cons]
      exact (List.prefix_append filled _).trans (ih _ _)

/-- A color that is left over was free before. -/
theorem fill_sublist (filled : List (Role × Option PaletteColor)) (free : Palette)
    (rest : List Role) : (fill filled free rest).2.Sublist free := by
  induction rest generalizing filled free with
  | nil => exact .refl free
  | cons role rest ih =>
      rw [fill_cons]
      exact (ih _ _).trans (without_sublist _ free)

theorem holder?_of_prefix (h : filled <+: roles) (role : Role) :
    holder? role filled = none ∨ holder? role roles = holder? role filled := by
  obtain ⟨more, rfl⟩ := h
  cases found : filled.lookup role with
  | none => exact .inl (by rw [holder?, found]; rfl)
  | some color => exact .inr (by rw [holder?, holder?, List.lookup_append, found]; rfl)

/-- With fewer roles filled a color has to be apart from fewer others. -/
theorem suits_of_fewer (h : filled <+: roles) (fits : suits roles c role = true) :
    suits filled c role = true := by
  have apart {other : Role} (ha : c.isApartFrom (holder? other roles) = true) :
      c.isApartFrom (holder? other filled) = true := by
    rcases holder?_of_prefix h other with none | same
    · rw [none]
      rfl
    · rwa [same] at ha
  cases role with
  | secondary =>
      rw [suits, Bool.and_eq_true] at *
      exact ⟨fits.1, apart fits.2⟩
  | accent =>
      rw [suits, Bool.and_eq_true, Bool.and_eq_true] at *
      exact ⟨⟨fits.1.1, apart fits.1.2⟩, apart fits.2⟩
  | foreground | background | outline | disabled | primary | border | surface1 | surface2 | muted =>
      exact fits

/-- A role holds what was picked for it when its turn came. -/
theorem holder?_fill (new : role ∉ filled.map Prod.fst) (free : Palette) (rest : List Role) :
    holder? role (fill filled free (role :: rest)).1 = pick? filled free role := by
  obtain ⟨more, roles⟩ := prefix_fill (filled ++ [(role, pick? filled free role)])
    (without (pick? filled free role) free) rest
  have none : filled.lookup role = none := lookup_eq_none_iff_notMem.2 new
  rw [fill_cons, ← roles, holder?, List.append_assoc, List.lookup_append, none, Option.none_or,
    List.singleton_append, List.lookup_cons_self]
  rfl

/-- The run over the roles that are still to be filled. -/
theorem isSome_holder?_fill {rest : List Role} (distinct : (filled.map Prod.fst ++ rest).Nodup)
    (left : c ∈ (fill filled free rest).2) (turn : role ∈ rest)
    (fits : suits (fill filled free rest).1 c role = true) :
    (holder? role (fill filled free rest).1).isSome := by
  induction rest generalizing filled free with
  | nil => cases turn
  | cons first rest ih =>
      rcases List.mem_cons.1 turn with rfl | later
      · have new : role ∉ filled.map Prod.fst := fun mem =>
          (List.nodup_append.1 distinct).2.2 role mem role List.mem_cons_self rfl
        rw [holder?_fill new]
        exact isSome_pick? ((fill_sublist _ _ _).subset left)
          (suits_of_fewer (prefix_fill _ _ _) fits)
      · refine ih ?_ left later fits
        rw [List.map_append, List.append_assoc]
        exact distinct

/-- A color that is left over suits no role that is empty. The foreground is empty in the empty
palette only. -/
theorem isSome_holder_of_unassigned {colors : ColorTable} {palette : Palette}
    (h : Palette.ofTable colors = .ok palette) :
    (∀ c ∈ (ofPalette palette).unassigned, ∀ role, suits (ofPalette palette).roles c role = true →
      (holder? role (ofPalette palette).roles).isSome) ∧
    (holder? .foreground (ofPalette palette).roles = none ↔ colors.keys = []) := by
  constructor
  · intro c left role fits
    have free : c ∈ (fill [] palette Role.all).2 := (List.mergeSort_perm _ _).mem_iff.1 left
    have turn : role ∈ Role.all := by cases role <;> decide
    exact isSome_holder?_fill (by decide) free turn fits
  · have first : holder? .foreground (ofPalette palette).roles = pick? [] palette .foreground :=
      holder?_fill List.not_mem_nil palette Role.all.tail
    rw [first, ← Palette.literals_ofTable h, List.map_eq_nil_iff]
    cases palette with
    | nil => exact ⟨fun _ => rfl, fun _ => pick?_nil [] .foreground⟩
    | cons c rest =>
        have some : (pick? [] (c :: rest) .foreground).isSome :=
          isSome_pick? List.mem_cons_self rfl
        rw [← Option.not_isSome_iff_eq_none]
        exact ⟨fun none => absurd some none, nofun⟩

/-- Eleven grays and a vivid color, one more than there are roles. -/
def twelveColors : ColorTable :=
  .ofList <| ["#000", "#111", "#222", "#333", "#444", "#555", "#666", "#777", "#888", "#999",
    "#aaa", "#f00"].map fun literal => (literal.toList, { count := 1 })

theorem isSome_holder_twelveColors : ∃ palette, Palette.ofTable twelveColors = .ok palette ∧
    (ofPalette palette).unassigned ≠ [] ∧
    (∀ c ∈ (ofPalette palette).unassigned, ∀ role, suits (ofPalette palette).roles c role = true →
      (holder? role (ofPalette palette).roles).isSome) ∧
    (holder? .foreground (ofPalette palette).roles).isSome := by
  have made : (Palette.ofTable twelveColors).toOption.isSome := by decide +kernel
  cases h : Palette.ofTable twelveColors with
  | error e =>
      rw [h] at made
      cases made
  | ok palette =>
      have filled := isSome_holder_of_unassigned h
      refine ⟨palette, rfl, ?_, filled.1, ?_⟩
      · intro none
        have count := (literals_perm h).length_eq
        have roles : ((ofPalette palette).roles.map Prod.fst).length = 11 :=
          congrArg List.length (fill_roles [] palette Role.all)
        rw [List.length_map] at roles
        have few : (held (ofPalette palette).roles).length ≤ 11 :=
          roles ▸ List.length_filterMap_le _ _
        have many : twelveColors.keys.length = 12 := by decide
        rw [none, List.append_nil, List.length_map, many] at count
        omega
      · rw [← Option.ne_none_iff_isSome, Ne, filled.2]
        decide

end RoleAssignment

end DesignTokens
