import DesignTokens.Proofs.CollectedLiterals
import DesignTokens.Proofs.RolePartition
import DesignTokens.Sorting.Lemmas

/-!
The literals that have tokens are candidates: orders only permute the literals of a category, and
the palette has the colors of its table.
-/
namespace DesignTokens

theorem Category.order_perm (bases : LengthBases) (c : Category) (table : CandidateTable) :
    (c.order bases table).Perm table.keys := by
  have measured (less : CandidateTable.Entry → CandidateTable.Entry → Bool) :
      ((Sorting.sort less table.entries).map Prod.fst).Perm table.keys :=
    (Sorting.sort_perm less table.entries).map _
  have ordered (tie : CandidateTable.Entry → CandidateTable.Entry → Bool) :
      (CandidateTable.ordered tie table).Perm table.keys :=
    (List.mergeSort_perm table.entries _).map _
  cases c with
  | spacing | borderWidths | radii | fontSizes | letterSpacings | lineHeights | durations =>
      exact measured _
  | shadows | easings | fontFamilies | fontWeights => exact ordered _

theorem Category.nodup_order (bases : LengthBases) (c : Category) (table : CandidateTable) :
    (c.order bases table).Nodup := (c.order_perm bases table).nodup_iff.2 table.nodup_keys

namespace TokenTables

variable {candidates : Candidates} {config : Config}

theorem mem_keys_of_mem_ofLiterals {s : NameScheme} {literals : List Text} {e : Text × Text}
    (h : e ∈ (TokenMap.ofLiterals s literals).entries) : e.1 ∈ literals :=
  (List.of_mem_zip (OrderedMap.mem_ofList h)).1

theorem mem_keys_of_mem_nameCategory {c : Category} {table : CandidateTable} {e : Text × Text}
    (h : e ∈ (nameCategory config c table).entries) : e.1 ∈ table.keys := by
  rw [nameCategory] at h
  split at h
  · exact (c.order_perm config.bases table).mem_iff.1 (mem_keys_of_mem_ofLiterals h)
  · cases h

theorem isEmpty_nameCategory {c : Category} {table : CandidateTable} (h : table.keys = []) :
    (nameCategory config c table).isEmpty := by
  rw [OrderedMap.isEmpty, List.isEmpty_iff, List.eq_nil_iff_forall_not_mem]
  intro e he
  have key := mem_keys_of_mem_nameCategory he
  rw [h] at key
  cases key

theorem mem_keys_of_mem_colors {palette : Palette}
    (hp : Palette.ofTable candidates.colors = .ok palette) {e : Text × Text}
    (h : e ∈ (ofCandidates candidates (.ofPalette palette) config).colors.entries) :
    e.1 ∈ candidates.colors.keys := by
  have perm := RoleAssignment.literals_perm hp
  rw [← perm.mem_iff, List.map_append, List.mem_append]
  rcases OrderedMap.mem_union h with semantic | numbered
  · simp only [ofCandidates] at semantic
    split at semantic
    · left
      obtain ⟨⟨role, color⟩, hr, hc⟩ := List.mem_filterMap.1 (OrderedMap.mem_ofList semantic)
      obtain ⟨c, rfl, rfl⟩ := Option.map_eq_some_iff.1 hc
      exact List.mem_map_of_mem (List.mem_filterMap.2 ⟨_, hr, rfl⟩)
    · cases semantic
  · simp only [ofCandidates] at numbered
    split at numbered
    · exact .inr (mem_keys_of_mem_ofLiterals numbered)
    · cases numbered

theorem isEmpty_colors {palette : Palette} (h : candidates.colors = .empty)
    (hp : Palette.ofTable candidates.colors = .ok palette) :
    (ofCandidates candidates (.ofPalette palette) config).colors.isEmpty := by
  rw [OrderedMap.isEmpty, List.isEmpty_iff, List.eq_nil_iff_forall_not_mem]
  intro e he
  have key := mem_keys_of_mem_colors hp he
  rw [h] at key
  cases key

end TokenTables

end DesignTokens
