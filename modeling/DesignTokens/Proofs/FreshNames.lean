import DesignTokens.Token.Name
import Mathlib.Data.List.Nodup
import Mathlib.Data.List.Perm.Subperm

/-!
Names that are given out one after another differ. The endings of a base name are written in
decimal, so they differ as their numbers do; among more endings than there are names in use one is
free, and the first free one is taken. Main statement: `nodup_assign`.
-/
namespace DesignTokens

theorem Number.digits_injective : Function.Injective digits := by
  intro m n h
  have read (k : Nat) : Nat.ofDigitChars 10 (digits k) 0 = k :=
    Nat.ofDigitChars_toDigits (by decide) (by decide)
  rw [← read m, h, read n]

namespace TokenName

theorem suffixed_injective (base : Text) : Function.Injective (suffixed base) := by
  intro m n h
  have digits := List.append_cancel_left h
  exact Number.digits_injective (List.cons.inj digits).2

/-- The ending that is found: all before it are taken, and it is free unless the tries ran out. -/
theorem exists_firstFree (base : Text) (used : List Text) (tries n : Nat) :
    ∃ k ≤ tries, firstFree base used tries n = suffixed base (n + k) ∧
      (∀ i < k, suffixed base (n + i) ∈ used) ∧
      (k < tries → suffixed base (n + k) ∉ used) := by
  induction tries generalizing n with
  | zero => exact ⟨0, Nat.le_refl 0, rfl, fun i hi => absurd hi (Nat.not_lt_zero i), nofun⟩
  | succ tries ih =>
      by_cases taken : suffixed base n ∈ used
      · obtain ⟨k, hk, found, before, free⟩ := ih (n + 1)
        have next (i : Nat) : n + 1 + i = n + (i + 1) := by omega
        rw [next] at found free
        rw [firstFree, if_pos taken]
        refine ⟨k + 1, by omega, found, ?_, fun hlt => free (by omega)⟩
        intro i hi
        cases i with
        | zero => exact taken
        | succ i => exact next i ▸ before i (by omega)
      · rw [firstFree, if_neg taken]
        exact ⟨0, by omega, rfl, fun i hi => absurd hi (Nat.not_lt_zero i), fun _ => taken⟩

/-- Endings in use are not more than the names in use. -/
theorem le_length_of_suffixed_mem {base : Text} {used : List Text} {n k : Nat}
    (h : ∀ i < k, suffixed base (n + i) ∈ used) : k ≤ used.length := by
  let endings := (List.range k).map fun i => suffixed base (n + i)
  have distinct : endings.Nodup := by
    refine List.nodup_range.map fun i j hij => ?_
    have same := suffixed_injective base hij
    omega
  have inside : endings ⊆ used := by
    intro name hname
    obtain ⟨i, hi, rfl⟩ := List.mem_map.1 hname
    exact h i (List.mem_range.1 hi)
  simpa [endings] using (distinct.subperm inside).length_le

/-- Tries as many as the names in use are enough. -/
theorem firstFree_least (base : Text) {used : List Text} {tries : Nat}
    (enough : used.length ≤ tries) (n : Nat) :
    ∃ k, firstFree base used tries n = suffixed base (n + k) ∧
      suffixed base (n + k) ∉ used ∧ ∀ i < k, suffixed base (n + i) ∈ used := by
  obtain ⟨k, hk, found, before, free⟩ := exists_firstFree base used tries n
  refine ⟨k, found, ?_, before⟩
  by_cases more : k < tries
  · exact free more
  · intro taken
    have all : ∀ i < k + 1, suffixed base (n + i) ∈ used := by
      intro i hi
      rcases Nat.lt_succ_iff_lt_or_eq.1 hi with earlier | rfl
      · exact before i earlier
      · exact taken
    have count := le_length_of_suffixed_mem all
    omega

theorem fresh_notMem (base : Text) (used : List Text) : fresh base used ∉ used := by
  by_cases taken : base ∈ used
  · obtain ⟨k, found, free, -⟩ := firstFree_least base (Nat.le_refl used.length) 2
    rw [fresh, if_pos taken, found]
    exact free
  · rwa [fresh, if_neg taken]

theorem notMem_used_of_mem_assign {s : NameScheme} {used : List Text}
    {literals : List (Text × Int)} {name : Text} (h : name ∈ assign s used literals) :
    name ∉ used := by
  induction literals generalizing used with
  | nil => cases h
  | cons l rest ih =>
      rcases List.mem_cons.1 h with rfl | later
      · exact fresh_notMem _ _
      · exact fun taken => ih later (List.mem_append_left _ taken)

/-- No name is given out twice, whatever the literals and their indices are. -/
theorem nodup_assign (s : NameScheme) (used : List Text) (literals : List (Text × Int)) :
    (assign s used literals).Nodup := by
  induction literals generalizing used with
  | nil => exact List.nodup_nil
  | cons l rest ih =>
      refine List.nodup_cons.2 ⟨fun again => ?_, ih _⟩
      exact notMem_used_of_mem_assign again (List.mem_append_right _ (List.mem_singleton_self _))

end TokenName

end DesignTokens
