import DesignTokens.Text.Basic
import Mathlib.Data.Char
import Mathlib.Data.List.Lex

/-!
The order of texts is the lexicographic order by code points, so it is linear.
-/
namespace DesignTokens.Text

theorem precedes_iff_not_lt (a b : Text) : precedes a b ↔ ¬ b < a := by
  induction a generalizing b with
  | nil => simp [precedes]
  | cons c s ih =>
      cases b with
      | nil => simp [precedes]
      | cons d t =>
          have order : c.toNat < d.toNat ↔ c < d := Iff.rfl
          simp only [precedes, List.cons_lt_cons_iff, Bool.or_eq_true, Bool.and_eq_true,
            decide_eq_true_eq, beq_iff_eq, ih, order]
          rcases lt_trichotomy c d with lt | rfl | gt
          · simp [lt, lt.le, lt.ne']
          · simp
          · simp [gt, gt.ne', gt.le]

theorem precedes_total (a b : Text) : precedes a b ∨ precedes b a := by
  simp only [precedes_iff_not_lt, not_lt]
  exact le_total a b

theorem precedes_trans {a b c : Text} (h : precedes a b) (k : precedes b c) : precedes a c := by
  simp only [precedes_iff_not_lt, not_lt] at h k ⊢
  exact h.trans k

theorem lt_of_precedes {a b : Text} (h : precedes a b) (hne : a ≠ b) : a < b := by
  rw [precedes_iff_not_lt, not_lt] at h
  exact lt_of_le_of_ne h hne

end DesignTokens.Text
