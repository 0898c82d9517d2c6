import DesignTokens.Proofs.LayeredSettings

/-!
Conversions that options give are between two different units that are known; all others are dropped
when they are read. So is every configuration that is made by options.
-/
namespace DesignTokens

/-- What holds of a setting, and of all that is read for it, holds when options were read. -/
theorem Reads.imp {α : Type} {P : α → Prop} {read : Json → Except OptionError α}
    {value : Option Json} {old new : α} (h : Reads read value old new) (before : P old)
    (fresh : ∀ value new, read value = .ok new → P new) : P new := by
  cases value with
  | none => exact h.eq_of_none ▸ before
  | some value => exact fresh value new h

namespace Conversion

/-- A conversion between two different units that are known. -/
structure IsSupported (c : Conversion) : Prop where
  source : c.source ∈ LengthUnit.known
  target : c.target ∈ LengthUnit.known
  distinct : c.source ≠ c.target

variable {c : Conversion}

theorem isSupported_of_ofNames? {source target : Text} (h : ofNames? source target = some c) :
    c.IsSupported := by
  obtain ⟨s, hs, h⟩ := Option.bind_eq_some_iff.1 h
  obtain ⟨u, hu, h⟩ := Option.bind_eq_some_iff.1 h
  split_ifs at h with same
  cases h
  exact ⟨List.mem_of_find?_eq_some hs, List.mem_of_find?_eq_some hu, same⟩

theorem isSupported_of_ofText? {t : Text} (h : ofText? t = some c) : c.IsSupported := by
  unfold ofText? at h
  split at h
  · exact isSupported_of_ofNames? h
  · cases h

theorem isSupported_of_ofList? {names : List Text} (h : ofList? names = some c) :
    c.IsSupported := by
  unfold ofList? at h
  split at h
  · exact isSupported_of_ofNames? h
  · cases h

theorem isSupported_of_ofItem {item : Json} (h : ofItem item = .ok (some c)) :
    c.IsSupported := by
  unfold ofItem at h
  split at h
  · exact isSupported_of_ofText? (Except.ok.inj h)
  · exact isSupported_of_ofList? (Except.ok.inj h)
  · exact isSupported_of_ofList? (Except.ok.inj h)
  · cases h

theorem isSupported_of_parse {value : Json} {chain : List Conversion}
    (h : parse value = .ok chain) : ∀ c ∈ chain, c.IsSupported := by
  unfold parse at h
  split_ifs at h
  · cases h
    exact fun _ hc => nomatch hc
  · split at h
    · cases h
      intro c hc
      obtain ⟨t, -, hc⟩ := List.mem_filterMap.1 hc
      exact isSupported_of_ofText? hc
    · obtain ⟨items, -, h⟩ := exists_of_bind_eq_ok h
      obtain ⟨chain, hchain, h⟩ := exists_of_bind_eq_ok h
      cases h
      intro c hc
      obtain ⟨read, hread, rfl⟩ := List.mem_filterMap.1 hc
      obtain ⟨item, -, hitem⟩ := (mem_mapM_iff hchain).1 hread
      exact isSupported_of_ofItem hitem

end Conversion

namespace Config

/-- Conversions go to units that are known. -/
def ConvertsKnown (config : Config) : Prop :=
  ∀ c ∈ config.conversions, c.target ∈ LengthUnit.known

theorem convertsKnown_default : default.ConvertsKnown := fun _ hc => nomatch hc

/-- Options that are put over a configuration are an object. -/
theorem exists_overlays {options : Json} {c config : Config}
    (h : overlay options c = .ok config) : ∃ members, Overlays members c config := by
  cases options with
  | object members => exact ⟨members, overlayMembers_eq_ok_iff.1 h⟩
  | null | bool _ | int _ | float _ | string _ | array _ => cases h

/-- Options keep what a configuration converts to among the known units. -/
theorem convertsKnown_of_overlay {options : Json} {c config : Config} (hc : c.ConvertsKnown)
    (h : overlay options c = .ok config) : config.ConvertsKnown := by
  obtain ⟨members, reads⟩ := exists_overlays h
  let known (chain : List Conversion) : Prop := ∀ p ∈ chain, p.target ∈ LengthUnit.known
  exact Reads.imp (P := known) reads.conversions hc fun _ _ read p mem =>
    (Conversion.isSupported_of_parse read p mem).target

end Config

end DesignTokens
