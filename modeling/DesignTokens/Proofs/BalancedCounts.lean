import DesignTokens.Proofs.CollectedLiterals
import Mathlib.Algebra.GroupWithZero.Nat

/-!
The books of the candidates. Whatever is added, declarations or single colors, each count is the sum
of the counters that are kept beside it, and the counts of the colors add up to the colors that were
added. Each occurrence keeps the books, and all that is added is a list of occurrences. Main
statement: `isBalanced_ofAdditions`.
-/
namespace DesignTokens

namespace OrderedMap

universe u v

variable {α : Type u} {β : Type v} [DecidableEq α]

/-- A change of one entry changes a sum over the values by the weight of this entry. -/
theorem sum_values_alter (weight : β → Nat) (key : α) (f : Option β → β) (m : OrderedMap α β) :
    ((m.alter key f).values.map weight).sum + ((m.get? key).map weight).getD 0 =
      (m.values.map weight).sum + weight (f (m.get? key)) := by
  have all (entries : List (α × β)) :
      (((alterEntries key f entries).map Prod.snd).map weight).sum +
          ((entries.lookup key).map weight).getD 0 =
        ((entries.map Prod.snd).map weight).sum + weight (f (entries.lookup key)) := by
    induction entries with
    | nil => simp [alterEntries]
    | cons e rest ih =>
        obtain ⟨k, v⟩ := e
        by_cases same : k = key
        · subst same
          simp only [alterEntries, if_pos, List.lookup_cons_self, List.map_cons, List.sum_cons,
            Option.map_some, Option.getD_some]
          omega
        · have miss : (key == k) = false := beq_false_of_ne (Ne.symm same)
          simp only [alterEntries, if_neg same, List.lookup_cons, miss, List.map_cons,
            List.sum_cons]
          omega
  exact all m.entries

theorem sum_values_increment (m : OrderedMap Text Nat) (key : Text) :
    (m.increment key).values.sum = m.values.sum + 1 := by
  have changed := sum_values_alter id key (fun n => n.getD 0 + 1) m
  simp only [List.map_id, Option.map_id_fun, id_eq] at changed
  rw [increment]
  omega

end OrderedMap

/-- The count of a color is the length of its history, and the sum over its properties. -/
structure ColorCandidate.IsBalanced (c : ColorCandidate) : Prop where
  selectors : c.count = c.selectors.length
  properties : c.count = c.properties.values.sum

theorem ColorCandidate.IsBalanced.occur {c : ColorCandidate} (h : c.IsBalanced)
    (property selector : Text) : (c.occur property selector).IsBalanced := by
  constructor
  · rw [ColorCandidate.occur, List.length_append, List.length_singleton, h.selectors]
  · rw [ColorCandidate.occur, OrderedMap.sum_values_increment, h.properties]

/-- The count of a spacing is the sum over its properties. In no other category are properties
counted, and in no other than durations is there a time. -/
structure Candidate.IsBalanced (category : Category) (literal : Text) (c : Candidate) : Prop where
  spacing : category = .spacing → c.count = c.properties.values.sum
  others : category ≠ .spacing → c.properties = .empty
  durations : category = .durations → c.milliseconds = some (Duration.milliseconds literal)
  timeless : category ≠ .durations → c.milliseconds = none

theorem Candidate.isBalanced_fresh (category : Category) (literal : Text) :
    (fresh category literal).IsBalanced category literal where
  spacing _ := rfl
  others _ := rfl
  durations h := if_pos h
  timeless h := if_neg h

/-- An occurrence in a category, with a property if and only if it is a spacing. -/
inductive Occurrence.IsPlaced : Occurrence → Prop
  | spacing (property literal : Text) : IsPlaced (.inTable .spacing (some property) literal)
  | other {category : Category} (h : category ≠ .spacing) (literal : Text) :
    IsPlaced (.inTable category none literal)

theorem Candidate.IsBalanced.occur {category : Category} {literal : Text} {property : Option Text}
    {c : Candidate} (h : c.IsBalanced category literal)
    (placed : (Occurrence.inTable category property literal).IsPlaced) :
    (c.occur property).IsBalanced category literal := by
  cases placed with
  | spacing property =>
      refine ⟨fun _ => ?_, fun no => absurd rfl no, h.durations, h.timeless⟩
      rw [Candidate.occur, Option.elim_some, OrderedMap.sum_values_increment, h.spacing rfl]
  | other no => exact ⟨fun is => absurd is no, h.others, h.durations, h.timeless⟩

namespace Declaration

/-- Every part of a declaration but its colors counts in its own categories. -/
theorem isPlaced_of_mem (d : Declaration) : ∀ o ∈ d.tableOccurrences, o.IsPlaced := by
  intro o ho
  obtain ⟨category, literal, -, rfl⟩ := mem_tableOccurrences_iff.1 ho
  by_cases spacing : category = .spacing
  · subst spacing
    exact .spacing d.property literal
  · rw [occurrence, if_neg spacing]
    exact .other spacing literal

end Declaration

/-- What is added to a collection: a declaration, or a color by itself. -/
inductive Addition where
  | declaration (d : Declaration)
  | color (literal property selector : Text)

namespace Addition

def addTo (t : Candidates) : Addition → Candidates
  | declaration d => t.add d
  | color literal property selector => t.countColor literal property selector

def occurrences : Addition → List Occurrence
  | declaration d => d.occurrences
  | color literal property selector => [.color literal property selector]

/-- How many colors are added. -/
def colorCount : Addition → Nat
  | declaration d => (Color.literals d.value).length
  | color .. => 1

theorem addTo_eq_foldl (t : Candidates) (a : Addition) :
    addTo t a = a.occurrences.foldl Occurrence.countIn t := by
  cases a with
  | declaration d => exact t.add_eq_foldl d
  | color literal property selector => rfl

theorem isColor_or_isPlaced (a : Addition) : ∀ o ∈ a.occurrences, o.isColor ∨ o.IsPlaced := by
  cases a with
  | declaration d =>
      rw [occurrences, Declaration.occurrences, List.forall_mem_append]
      refine ⟨fun o ho => .inl ?_, fun o ho => .inr (d.isPlaced_of_mem o ho)⟩
      obtain ⟨literal, -, rfl⟩ := List.mem_map.1 ho
      rfl
  | color literal property selector =>
      rw [occurrences, List.forall_mem_singleton]
      exact .inl rfl

/-- The colors that are added are the occurrences of colors. -/
theorem countP_occurrences (a : Addition) : a.occurrences.countP (·.isColor) = a.colorCount := by
  cases a with
  | declaration d =>
      have tables : d.tableOccurrences.countP (·.isColor) = 0 := by
        rw [List.countP_eq_zero]
        intro o ho
        cases d.isPlaced_of_mem o ho <;> exact Bool.false_ne_true
      rw [occurrences, Declaration.occurrences, List.countP_append, tables, Nat.add_zero,
        Declaration.colorOccurrences, List.countP_map]
      exact congrFun List.countP_true _
  | color literal property selector => rfl

end Addition

namespace Candidates

/-- All books are balanced, and no entry is without an occurrence. -/
structure IsBalanced (t : Candidates) : Prop where
  colors : ∀ literal c, t.colors.get? literal = some c → 1 ≤ c.count ∧ c.IsBalanced
  tables : ∀ category literal c, (t.table category).get? literal = some c →
    1 ≤ c.count ∧ c.IsBalanced category literal

def colorTotal (t : Candidates) : Nat := (t.colors.values.map ColorCandidate.count).sum

/-- The step: an occurrence keeps the books. -/
theorem IsBalanced.countIn {t : Candidates} (h : t.IsBalanced) {o : Occurrence}
    (placed : o.isColor ∨ o.IsPlaced) : (o.countIn t).IsBalanced := by
  cases o with
  | color literal property selector =>
      refine ⟨fun other c found => ?_, h.tables⟩
      change (t.colors.alter literal _).get? other = some c at found
      rw [OrderedMap.get?_alter] at found
      split_ifs at found with same
      · cases found
        refine ⟨Nat.le_add_left 1 _, .occur ?_ property selector⟩
        cases old : t.colors.get? literal with
        | none => exact ⟨rfl, rfl⟩
        | some c => exact (h.colors literal c old).2
      · exact h.colors other c found
  | inTable category property literal =>
      replace placed := placed.resolve_left Bool.false_ne_true
      refine ⟨h.colors, fun category' other c found => ?_⟩
      change ((t.countFrom _ category property literal).table category').get? other = _ at found
      rw [table_countFrom] at found
      split_ifs at found with same
      · subst same
        rw [OrderedMap.get?_alter] at found
        split_ifs at found with same
        · subst same
          cases found
          refine ⟨Nat.le_add_left 1 _, .occur ?_ placed⟩
          cases old : (t.table category').get? other with
          | none => exact Candidate.isBalanced_fresh category' other
          | some c => exact (h.tables category' other c old).2
        · exact h.tables category' other c found
      · exact h.tables category' other c found

theorem colorTotal_countIn (t : Candidates) (o : Occurrence) :
    (o.countIn t).colorTotal = t.colorTotal + if o.isColor then 1 else 0 := by
  cases o with
  | color literal property selector =>
      have changed := OrderedMap.sum_values_alter ColorCandidate.count literal
        (fun old => (old.getD {}).occur property selector) t.colors
      change ((t.colors.alter literal _).values.map _).sum = (t.colors.values.map _).sum + 1
      cases old : t.colors.get? literal with
      | none =>
          rw [old] at changed
          exact changed
      | some c =>
          rw [old] at changed
          change _ + c.count = _ + (c.count + 1) at changed
          omega
  | inTable category property literal => rfl

/-- The run: from a balanced collection, any occurrences lead to a balanced one. -/
theorem IsBalanced.foldl {t : Candidates} (h : t.IsBalanced) {occurrences : List Occurrence}
    (placed : ∀ o ∈ occurrences, o.isColor ∨ o.IsPlaced) :
    (occurrences.foldl Occurrence.countIn t).IsBalanced :=
  List.foldlRecOn occurrences _ h fun _ balanced o ho => balanced.countIn (placed o ho)

theorem colorTotal_foldl (t : Candidates) (occurrences : List Occurrence) :
    (occurrences.foldl Occurrence.countIn t).colorTotal =
      t.colorTotal + occurrences.countP (·.isColor) := by
  induction occurrences generalizing t with
  | nil => rfl
  | cons o rest ih =>
      rw [List.foldl_cons, ih, colorTotal_countIn, List.countP_cons]
      omega

theorem isBalanced_empty : empty.IsBalanced := ⟨nofun, nofun⟩

/-- What is collected by some additions, one after the other. -/
def ofAdditions (additions : List Addition) : Candidates := additions.foldl Addition.addTo empty

/-- All additions keep the books: counts are the sums of what is kept beside them, and as many
colors are counted as were added. -/
theorem isBalanced_ofAdditions (additions : List Addition) :
    (ofAdditions additions).IsBalanced ∧
      (ofAdditions additions).colorTotal = (additions.map Addition.colorCount).sum := by
  have made : ofAdditions additions =
      (additions.flatMap Addition.occurrences).foldl Occurrence.countIn empty := by
    rw [List.foldl_flatMap, ofAdditions]
    exact List.foldl_ext _ _ empty fun t a _ => a.addTo_eq_foldl t
  rw [made]
  constructor
  · refine isBalanced_empty.foldl fun o ho => ?_
    obtain ⟨a, -, ho⟩ := List.mem_flatMap.1 ho
    exact a.isColor_or_isPlaced o ho
  · rw [colorTotal_foldl, List.countP_flatMap]
    simp only [Function.comp_def, Addition.countP_occurrences]
    exact Nat.zero_add _

end Candidates

end DesignTokens
