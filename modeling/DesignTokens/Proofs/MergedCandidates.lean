import DesignTokens.Proofs.MergedMaps
import DesignTokens.Proofs.Occurrences

/-!
Collections that are put together. Two maps are merged by taking the keys of the first in their
order and then the new keys of the second, where values of one key are combined; so are candidates,
their counters and their tables. Each step that counts an occurrence looks at its own entry only, so
it may as well be done in the second of two collections. Main statement: `collect_append`.
-/
namespace DesignTokens

theorem OrderedMap.increment_merge (m n : OrderedMap Text Nat) (key : Text) :
    (m.merge (· + ·) n).increment key = m.merge (· + ·) (n.increment key) :=
  alter_merge (fun a b => Nat.add_assoc a b 1) fun _ => rfl

/-- Two records of one literal: what they count is added, and its duration is kept. -/
def Candidate.merge (a b : Candidate) : Candidate :=
  ⟨a.count + b.count, a.properties.merge (· + ·) b.properties, a.milliseconds⟩

/-- Two records of one color, the selectors of the second after those of the first. -/
def ColorCandidate.merge (a b : ColorCandidate) : ColorCandidate :=
  ⟨a.count + b.count, a.properties.merge (· + ·) b.properties, a.selectors ++ b.selectors⟩

theorem Candidate.merge_of_unused {fresh : Candidate} (count : fresh.count = 0)
    (properties : fresh.properties = .empty) (a : Candidate) : a.merge fresh = a := by
  rw [merge, count, properties, OrderedMap.merge_empty]
  rfl

theorem Candidate.occur_merge (a b : Candidate) (property : Option Text) :
    (a.merge b).occur property = a.merge (b.occur property) := by
  cases property with
  | none => rfl
  | some property =>
      simp only [occur, merge, Option.elim_some, OrderedMap.increment_merge]
      rfl

theorem ColorCandidate.merge_new (a : ColorCandidate) : a.merge {} = a := by
  rw [merge, OrderedMap.merge_empty, List.append_nil]
  rfl

theorem ColorCandidate.occur_merge (a b : ColorCandidate) (property selector : Text) :
    (a.merge b).occur property selector = a.merge (b.occur property selector) := by
  simp only [occur, merge, OrderedMap.increment_merge, List.append_assoc]
  rfl

namespace Candidates

/-- The candidates of two collections, category by category. -/
def merge (s t : Candidates) : Candidates where
  colors := s.colors.merge ColorCandidate.merge t.colors
  tables := s.tables.merge (.merge Candidate.merge) t.tables

theorem merge_none (s : Candidates) : s.merge empty = s := by
  change Candidates.mk (s.colors.merge _ .empty) (s.tables.merge _ .empty) = s
  rw [OrderedMap.merge_empty, OrderedMap.merge_empty]

theorem table_merge (s t : Candidates) (c : Category) :
    (s.merge t).table c = (s.table c).merge Candidate.merge (t.table c) := by
  have left (m : CandidateTable) : OrderedMap.empty.merge Candidate.merge m = m := by
    refine OrderedMap.ext_get? ?_ fun k _ => OrderedMap.get?_merge k
    rw [OrderedMap.keys_merge]
    exact List.filter_eq_self.2 fun _ _ => rfl
  rw [table, table, table, merge, OrderedMap.get?_merge]
  cases s.tables.get? c with
  | none => exact (left _).symm
  | some m =>
      cases t.tables.get? c with
      | none => exact OrderedMap.merge_empty.symm
      | some n => rfl

/-- A step that may be done in the second of two collections before they are merged. -/
def Additive (f : Candidates → Candidates) : Prop :=
  ∀ s t : Candidates, f (s.merge t) = s.merge (f t)

namespace Additive

theorem foldl {γ : Type} {f : Candidates → γ → Candidates} (h : ∀ x, Additive (f · x))
    (items : List γ) : Additive (items.foldl f ·) := by
  induction items with
  | nil => exact fun _ _ => rfl
  | cons x items ih => exact fun s t => (congrArg (items.foldl f ·) (h x s t)).trans (ih s (f t x))

theorem countFrom {fresh : Candidate} (count : fresh.count = 0)
    (properties : fresh.properties = .empty) (c : Category) (property : Option Text)
    (literal : Text) : Additive (countFrom fresh c property literal) := by
  have counted (s t : CandidateTable) :
      (s.merge Candidate.merge t).alter literal (fun old => (old.getD fresh).occur property) =
        s.merge Candidate.merge (t.alter literal fun old => (old.getD fresh).occur property) := by
    refine OrderedMap.alter_merge (fun a b => a.occur_merge b property) fun a => ?_
    rw [Option.getD_some, Option.getD_none, ← Candidate.occur_merge,
      Candidate.merge_of_unused count properties]
  intro s t
  rw [Candidates.countFrom, Candidates.countFrom, merge, merge, OrderedMap.alter_merge counted]
  intro a
  rw [Option.getD_some, Option.getD_none, ← counted, OrderedMap.merge_empty]

theorem countColor (literal property selector : Text) :
    Additive (Candidates.countColor literal property selector) := by
  intro s t
  rw [Candidates.countColor, Candidates.countColor, merge, merge, OrderedMap.alter_merge]
  · exact fun a b => a.occur_merge b property selector
  · intro a
    rw [Option.getD_some, Option.getD_none, ← ColorCandidate.occur_merge, ColorCandidate.merge_new]

theorem countIn (o : Occurrence) : Additive (o.countIn ·) := by
  cases o with
  | color literal property selector => exact countColor literal property selector
  | inTable c property literal => exact countFrom rfl rfl c property literal

theorem add (d : Declaration) : Additive (Candidates.add · d) := by
  intro s t
  change (s.merge t).add d = s.merge (t.add d)
  rw [add_eq_foldl, add_eq_foldl]
  exact foldl countIn d.occurrences s t

end Additive

/-- Collecting two lists of declarations one after the other merges their candidates: in each
category the keys of the first list come in their order, then the new keys of the second one. -/
theorem collect_append (d e : List Declaration) :
    collect (d ++ e) = (collect d).merge (collect e) ∧
      ∀ c, (collect (d ++ e)).table c =
        ((collect d).table c).merge Candidate.merge ((collect e).table c) := by
  have merged : collect (d ++ e) = (collect d).merge (collect e) := by
    have later := Additive.foldl Additive.add e (collect d) empty
    rw [merge_none] at later
    rw [collect, List.foldl_append]
    exact later
  exact ⟨merged, fun c => by rw [merged, table_merge]⟩

end Candidates

end DesignTokens
