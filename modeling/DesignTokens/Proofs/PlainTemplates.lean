import DesignTokens.Proofs.References
import DesignTokens.Reference.Font

/-!
Templates without a backslash stand for themselves. So do the references of weights whose names have
none.
-/
namespace DesignTokens

namespace Template

/-- The template of a text that has no escapes. -/
def plain (t : Text) : Template := t.map fun c => .text [c]

theorem signs?_of_notMem {t : Text} (h : '\\' ∉ t) : signs? t = some (t.map Sign.plain) := by
  induction t with
  | nil => rfl
  | cons c t ih =>
      simp only [List.mem_cons, not_or] at h
      simp [signs?, ih h.2, Ne.symm h.1]

theorem partsFrom_plain (position : Nat) (t : Text) :
    partsFrom position 0 (t.map Sign.plain) = .ok (plain t) := by
  induction t generalizing position with
  | nil => rfl
  | cons c t ih =>
      rw [List.map_cons, partsFrom, ih]
      rfl

theorem parse_of_notMem {t : Text} (h : '\\' ∉ t) : parse t = .ok (plain t) := by
  rw [parse, signs?_of_notMem h]
  simp only [partsFrom_plain]
  rfl

theorem fill_plain (matched t : Text) : fill matched (plain t) = t := by
  simp [fill, plain, List.flatMap_map]

end Template

namespace FontShorthand

/-- The references of the weights as templates. -/
def plainTemplates (tokens : TokenTables) : List (Text × Template) :=
  (tokens.table .fontWeights).entries.map fun e => (e.1, Template.plain (reference e.2))

theorem weightTemplates_eq {tokens : TokenTables}
    (h : ∀ e ∈ (tokens.table .fontWeights).entries, '\\' ∉ e.2) :
    weightTemplates tokens = .ok (plainTemplates tokens) := by
  rw [weightTemplates, plainTemplates]
  generalize (tokens.table .fontWeights).entries = entries at h ⊢
  induction entries with
  | nil => rfl
  | cons e entries ih =>
      have backslash : '\\' ∉ reference e.2 := by simp [reference, h e (by simp)]
      rw [List.mapM_cons, ih fun e he => h e (by simp [he])]
      simp only [Template.parse_of_notMem backslash]
      rfl

theorem weightTemplates_eq_of_valid {tokens : TokenTables}
    (h : ∀ e ∈ (tokens.table .fontWeights).entries, TokenName.Valid e.2) :
    weightTemplates tokens = .ok (plainTemplates tokens) :=
  weightTemplates_eq fun e he hc => absurd ((h e he).parts _ hc) (by decide)

end FontShorthand

end DesignTokens
