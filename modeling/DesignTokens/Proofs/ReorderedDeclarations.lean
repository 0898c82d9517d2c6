import DesignTokens.Proofs.BalancedCounts
import DesignTokens.Proofs.TextOrder
import DesignTokens.Proofs.TokenNames

/-!
Declarations in another order. The count of a candidate is the number of its occurrences, which no
reordering changes, and outside of spacings a candidate is no more than its count. So the tables of
two orders hold the same entries, and a total order of the entries forgets how they were found. Main
statement: `table_ofCandidates_collect_of_perm`.
-/
namespace DesignTokens

namespace OrderedMap

universe u v

variable {α : Type u} {β : Type v} [DecidableEq α]

/-- Maps that hold the same values differ in the order of their entries only. -/
theorem entries_perm_of_get? {m n : OrderedMap α β} (h : ∀ key, m.get? key = n.get? key) :
    m.entries.Perm n.entries := by
  have distinct (m : OrderedMap α β) : m.entries.Nodup :=
    (List.pairwise_map.1 m.nodup_keys).imp fun other same => other (congrArg Prod.fst same)
  refine (List.perm_ext_iff_of_nodup (distinct m) (distinct n)).2 fun e => ?_
  obtain ⟨key, value⟩ := e
  rw [← get?_eq_some_iff, h, get?_eq_some_iff]

end OrderedMap

/-! ### Counts -/

/-- Is an occurrence one of the literal in the category? -/
def Occurrence.isOf (c : Category) (literal : Text) : Occurrence → Bool
  | color .. => false
  | inTable c' _ literal' => c' = c && literal' = literal

/-- How often a literal occurs. -/
def CandidateTable.tally (table : CandidateTable) (literal : Text) : Nat :=
  (table.get? literal).elim 0 Candidate.count

namespace Candidates

open Occurrence

variable {c : Category} {literal : Text}

theorem tally_countIn (t : Candidates) (o : Occurrence) :
    CandidateTable.tally ((o.countIn t).table c) literal =
      CandidateTable.tally (t.table c) literal + if o.isOf c literal then 1 else 0 := by
  cases o with
  | color => rfl
  | inTable c' property literal' =>
      change CandidateTable.tally ((t.countFrom _ c' property literal').table c) literal = _
      rw [table_countFrom, isOf]
      by_cases category : c' = c
      · subst category
        rw [if_pos rfl, CandidateTable.tally, CandidateTable.tally, OrderedMap.get?_alter]
        by_cases same : literal' = literal
        · subst same
          cases old : (t.table c').get? literal' <;> simp [Candidate.occur, Candidate.fresh]
        · simp [same, Ne.symm same]
      · simp [category, Ne.symm category]

theorem tally_foldl (occurrences : List Occurrence) (t : Candidates) :
    CandidateTable.tally ((occurrences.foldl countIn t).table c) literal =
      CandidateTable.tally (t.table c) literal + occurrences.countP (·.isOf c literal) := by
  induction occurrences generalizing t with
  | nil => rfl
  | cons o rest ih =>
      rw [List.foldl_cons, ih, tally_countIn, List.countP_cons]
      omega

theorem collect_eq_foldl (declarations : List Declaration) :
    collect declarations = (declarations.flatMap Declaration.occurrences).foldl countIn empty := by
  rw [List.foldl_flatMap, collect]
  exact List.foldl_ext _ _ empty fun t d _ => t.add_eq_foldl d

/-- A literal is counted once for each of its occurrences. -/
theorem tally_collect (declarations : List Declaration) :
    CandidateTable.tally ((collect declarations).table c) literal =
      (declarations.flatMap Declaration.occurrences).countP (·.isOf c literal) := by
  rw [collect_eq_foldl, tally_foldl]
  exact Nat.zero_add _

theorem isBalanced_collect (declarations : List Declaration) :
    (collect declarations).IsBalanced := by
  rw [collect_eq_foldl]
  refine isBalanced_empty.foldl fun o ho => ?_
  obtain ⟨d, -, ho⟩ := List.mem_flatMap.1 ho
  exact (Addition.declaration d).isColor_or_isPlaced o ho

/-- Where no properties are counted, a candidate is its count. -/
theorem IsBalanced.get?_eq {t : Candidates} (h : t.IsBalanced) (hc : c ≠ .spacing) :
    (t.table c).get? literal =
      if CandidateTable.tally (t.table c) literal = 0 then none
      else some ⟨CandidateTable.tally (t.table c) literal, .empty,
        (Candidate.fresh c literal).milliseconds⟩ := by
  rw [CandidateTable.tally]
  cases found : (t.table c).get? literal with
  | none => rfl
  | some candidate =>
      obtain ⟨used, books⟩ := h.tables c literal candidate found
      have properties := books.others hc
      have time : candidate.milliseconds = (Candidate.fresh c literal).milliseconds := by
        by_cases timed : c = .durations
        · rw [books.durations timed, Candidate.fresh, if_pos timed]
        · rw [books.timeless timed, Candidate.fresh, if_neg timed]
      rw [Option.elim_some, if_neg (by omega), ← time, ← properties]

theorem get?_collect_of_perm {d e : List Declaration} (h : d.Perm e) (hc : c ≠ .spacing) :
    ((collect d).table c).get? literal = ((collect e).table c).get? literal := by
  have counts : (d.flatMap Declaration.occurrences).countP (·.isOf c literal) =
      (e.flatMap Declaration.occurrences).countP (·.isOf c literal) :=
    (h.flatMap_right _).countP_eq _
  rw [(isBalanced_collect d).get?_eq hc, (isBalanced_collect e).get?_eq hc, tally_collect,
    tally_collect, counts]

end Candidates

/-! ### Order -/

namespace CandidateTable

/-- The order of entries by descending count and ascending literal. -/
abbrev ranks : Entry → Entry → Bool := precedes fun a b => Text.precedes a.1 b.1

theorem ranks_iff {a b : Entry} : ranks a b ↔
    b.2.count < a.2.count ∨ a.2.count = b.2.count ∧ Text.precedes a.1 b.1 := by
  simp [ranks, precedes]

theorem ranks_total (a b : Entry) : ranks a b || ranks b a := by
  rw [Bool.or_eq_true, ranks_iff, ranks_iff]
  rcases Nat.lt_trichotomy a.2.count b.2.count with fewer | same | more
  · exact .inr (.inl fewer)
  · exact (Text.precedes_total a.1 b.1).imp (.inr ⟨same, ·⟩) (.inr ⟨same.symm, ·⟩)
  · exact .inl (.inl more)

theorem ranks_trans (a b c : Entry) (h : ranks a b) (k : ranks b c) : ranks a c := by
  rw [ranks_iff] at *
  rcases h with more | ⟨same, before⟩
  · left
    omega
  · rcases k with more' | ⟨same', before'⟩
    · left
      omega
    · exact .inr ⟨same.trans same', Text.precedes_trans before before'⟩

/-- Only entries of one literal rank alike. -/
theorem literal_eq_of_ranks {a b : Entry} (h : ranks a b) (k : ranks b a) : a.1 = b.1 := by
  rw [ranks_iff] at h k
  obtain ⟨-, before⟩ := h.resolve_left fun more => by omega
  obtain ⟨-, after⟩ := k.resolve_left fun more => by omega
  by_contra different
  exact (Text.precedes_iff_not_lt _ _).1 after (Text.lt_of_precedes before different)

/-- The order of literals does not tell in which order the entries came. -/
theorem byLiteral_eq_of_perm {s t : CandidateTable} (h : s.entries.Perm t.entries) :
    s.byLiteral = t.byLiteral := by
  have left := List.mergeSort_perm s.entries ranks
  have right := List.mergeSort_perm t.entries ranks
  refine congrArg (List.map Prod.fst) ?_
  refine List.Perm.eq_of_pairwise (fun a b ha hb ab ba => ?_)
    (List.pairwise_mergeSort ranks_trans ranks_total _)
    (List.pairwise_mergeSort ranks_trans ranks_total _) (left.trans (h.trans right.symm))
  have inside : (b.1, b.2) ∈ s.entries := h.mem_iff.2 (right.mem_iff.1 hb)
  rw [← literal_eq_of_ranks ab ba, ← OrderedMap.get?_eq_some_iff,
    OrderedMap.get?_eq_some_iff.2 (left.mem_iff.1 ha)] at inside
  exact Prod.ext (literal_eq_of_ranks ab ba) (Option.some.inj inside)

end CandidateTable

namespace TokenTables

/-- Shadows, easings and font families get the same names in the same order, whatever the order of
the declarations is. -/
theorem table_ofCandidates_collect_of_perm {d e : List Declaration} (h : d.Perm e)
    (config : Config) (roles roles' : RoleAssignment) :
    ∀ c ∈ [Category.shadows, .easings, .fontFamilies],
      (ofCandidates (Candidates.collect d) roles config).table c =
        (ofCandidates (Candidates.collect e) roles' config).table c := by
  intro c hc
  have unspaced : ∀ c ∈ [Category.shadows, .easings, .fontFamilies],
      c ≠ .spacing ∧ ∀ bases, c.order bases = CandidateTable.byLiteral := by
    simp [Category.order]
  obtain ⟨other, order⟩ := unspaced c hc
  have entries := OrderedMap.entries_perm_of_get? fun _ => Candidates.get?_collect_of_perm h other
  rw [table_ofCandidates, table_ofCandidates, nameCategory, nameCategory, order,
    CandidateTable.byLiteral_eq_of_perm entries]

/-- Two easings that occur equally often. -/
def easedTransitions : List Declaration :=
  [⟨"a".toList, "transition".toList, "1s linear".toList⟩,
    ⟨"b".toList, "animation".toList, "2s ease-in".toList⟩]

theorem table_ofCandidates_collect_easedTransitions :
    easedTransitions.Perm easedTransitions.reverse ∧
      Category.easings ∈ [Category.shadows, .easings, .fontFamilies] ∧
      ∃ easings : TokenMap,
        easings.entries =
          [("ease-in".toList, "--ease-1".toList), ("linear".toList, "--ease-2".toList)] ∧
        (ofCandidates (Candidates.collect easedTransitions) ⟨[], []⟩ .default).table .easings =
          easings ∧
        (ofCandidates (Candidates.collect easedTransitions.reverse) ⟨[], []⟩ .default).table
          .easings = easings := by
  have perm := (List.reverse_perm easedTransitions).symm
  have listed : Category.easings ∈ [Category.shadows, .easings, .fontFamilies] := by decide
  refine ⟨perm, listed, _, ?_, table_ofCandidates_collect_of_perm perm .default ⟨[], []⟩ ⟨[], []⟩ _
    listed, rfl⟩
  -- The second order is the ranking itself, so nothing is left to sort.
  have ranked : ((Candidates.collect easedTransitions.reverse).table .easings).entries.Pairwise
      (CandidateTable.ranks · ·) := by decide +kernel
  rw [table_ofCandidates, nameCategory, Category.order, CandidateTable.byLiteral,
    CandidateTable.ordered, List.mergeSort_of_pairwise ranked]
  decide +kernel

end TokenTables

end DesignTokens
