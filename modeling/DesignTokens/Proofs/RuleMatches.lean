import DesignTokens.Proofs.SheetReading

/-!
The rules of a text are the matches of a pattern: a selector that is not empty and holds no brace,
`{`, a body without `}`, and `}`. The matches are taken from left to right, each as early as there
is one after the match before it. Main statement: `leftmostMatches_iff_spans`.
-/
namespace DesignTokens

namespace Rule

/-- The pattern of a rule matches a text from `start` up to `stop`. -/
structure IsMatch (t : Text) (r : Rule) (start stop : Nat) : Prop where
  slice : (t.take stop).drop start = r.text
  inside : stop ≤ t.length
  prelude : Sheet.IsPrelude r.selector
  body_open : '}' ∉ r.body

theorem length_text_pos (r : Rule) : 0 < r.text.length := by
  simp only [text, List.length_append, List.length_cons]
  omega

namespace IsMatch

variable {t front : Text} {r s : Rule} {start stop : Nat}

theorem stop_eq (h : IsMatch t r start stop) : stop = start + r.text.length := by
  have length := congrArg List.length h.slice
  have nonempty := r.length_text_pos
  rw [List.length_drop, List.length_take, Nat.min_eq_left h.inside] at length
  omega

theorem of_text {rest : Text} (hr : Sheet.IsPrelude r.selector) (hbody : '}' ∉ r.body) :
    IsMatch (front ++ (r.text ++ rest)) r front.length (front.length + r.text.length) where
  slice := by rw [List.take_length_add_append, List.take_left, List.drop_left]
  inside := by simp only [List.length_append]; omega
  prelude := hr
  body_open := hbody

/-- What a match finds at its start. -/
theorem exists_rest (h : IsMatch t r start stop) :
    ∃ rest, t.drop start = r.selector ++ '{' :: (r.body ++ '}' :: rest) := by
  have le : start ≤ (t.take stop).length := by
    rw [List.length_take, Nat.min_eq_left h.inside, h.stop_eq]
    exact Nat.le_add_right _ _
  refine ⟨t.drop stop, ?_⟩
  calc t.drop start = (t.take stop ++ t.drop stop).drop start := by rw [List.take_append_drop]
    _ = (t.take stop).drop start ++ t.drop stop := List.drop_append_of_le_length le
    _ = r.selector ++ '{' :: (r.body ++ '}' :: t.drop stop) := by simp [h.slice, text]

theorem unique {other : Nat} (h : IsMatch t r start stop) (k : IsMatch t s start other) :
    r = s ∧ stop = other := by
  obtain ⟨u, hu⟩ := h.exists_rest
  obtain ⟨v, hv⟩ := k.exists_rest
  have same := hu.symm.trans hv
  have selector : r.selector = s.selector := by
    have := congrArg (List.takeWhile (!Sheet.isBrace ·)) same
    rwa [Sheet.takeWhile_prelude h.prelude rfl, Sheet.takeWhile_prelude k.prelude rfl] at this
  rw [selector] at same
  have body : r.body = s.body := by
    have := congrArg (fun t => (Text.cut '}' t).1) (List.cons.inj (List.append_cancel_left same)).2
    simpa only [Text.cut_append_cons h.body_open, Text.cut_append_cons k.body_open] using this
  have rules : r = s := by
    cases r
    cases s
    cases selector
    cases body
    rfl
  exact ⟨rules, by rw [h.stop_eq, k.stop_eq, rules]⟩

/-- A match that starts after a front is a match in what follows the front. -/
theorem exists_shift (h : IsMatch (front ++ t) r start stop) (hle : front.length ≤ start) :
    ∃ i j, start = front.length + i ∧ IsMatch t r i j := by
  obtain ⟨i, rfl⟩ := Nat.exists_eq_add_of_le hle
  obtain rfl : stop = front.length + (i + r.text.length) := by rw [h.stop_eq, Nat.add_assoc]
  have slice := h.slice
  have inside := h.inside
  rw [List.take_length_add_append, List.drop_length_add_append] at slice
  rw [List.length_append] at inside
  exact ⟨i, _, rfl, slice, by omega, h.prelude, h.body_open⟩

theorem not_start_brace {c : Char} {rest : Text} (h : IsMatch t r start stop)
    (hc : t.drop start = c :: rest) : Sheet.isBrace c = false := by
  obtain ⟨u, hu⟩ := h.exists_rest
  obtain ⟨d, selector, hs⟩ := List.exists_cons_of_ne_nil h.prelude.ne_nil
  rw [hc, hs] at hu
  cases hu
  exact h.prelude.plain c (by simp [hs])

theorem after_braces {braces : Text} (hb : ∀ c ∈ braces, Sheet.isBrace c)
    (h : IsMatch (braces ++ t) r start stop) : braces.length ≤ start := by
  by_contra hlt
  rw [Nat.not_le] at hlt
  have here : (braces ++ t).drop start = braces[start] :: (braces.drop (start + 1) ++ t) := by
    rw [List.drop_append_of_le_length (by omega), List.drop_eq_getElem_cons hlt,
      List.cons_append]
  have := h.not_start_brace here
  simp [hb braces[start] (List.getElem_mem hlt)] at this

/-- A match does not start in plain text that a stray `}` ends, or at that `}`. -/
theorem after_stray {run : Text} (hr : ∀ c ∈ run, Sheet.isBrace c = false)
    (h : IsMatch (run ++ '}' :: t) r start stop) : run.length + 1 ≤ start := by
  by_contra hlt
  obtain ⟨rest, hrest⟩ := h.exists_rest
  rw [List.drop_append_of_le_length (by omega)] at hrest
  have plain : ∀ c ∈ run.drop start, (!Sheet.isBrace c) = true :=
    fun c hc => by simp [hr c (List.mem_of_mem_drop hc)]
  have stops := congrArg (List.dropWhile (!Sheet.isBrace ·)) hrest
  rw [Text.dropWhile_run plain rfl, Sheet.dropWhile_prelude h.prelude rfl] at stops
  cases stops

/-- Text without a rule holds no match: after its leading braces there is no `{`, or no `}` after the
first `{`. -/
theorem not_of_ruleless (ht : Sheet.Ruleless t) : ¬ IsMatch t r start stop := by
  intro h
  obtain ⟨u, hu⟩ := h.exists_rest
  cases ht with
  | @plain braces run hb hr =>
      obtain ⟨k, rfl⟩ := Nat.exists_eq_add_of_le (h.after_braces hb)
      rw [List.drop_length_add_append] at hu
      have opened : '{' ∈ run.drop k := by simp [hu]
      have := hr '{' (List.mem_of_mem_drop opened)
      cases this
  | @unclosed braces run rest hb hr hc =>
      rw [List.append_assoc] at h hu
      obtain ⟨k, rfl⟩ := Nat.exists_eq_add_of_le (h.after_braces hb)
      rw [List.drop_length_add_append] at hu
      apply hc
      rcases Nat.lt_or_ge run.length k with lt | le
      · obtain ⟨j, rfl⟩ := Nat.exists_eq_add_of_le (Nat.succ_le_of_lt lt)
        rw [Nat.succ_eq_add_one, Nat.add_assoc, List.drop_length_add_append, Nat.add_comm 1 j,
          List.drop_succ_cons] at hu
        exact List.mem_of_mem_drop (i := j) (by simp [hu])
      · rw [List.drop_append_of_le_length le] at hu
        have plain : ∀ c ∈ run.drop k, (!Sheet.isBrace c) = true :=
          fun c hc => by simp [hr.plain c (List.mem_of_mem_drop hc)]
        have stops := congrArg (List.dropWhile (!Sheet.isBrace ·)) hu
        rw [Text.dropWhile_run plain rfl, Sheet.dropWhile_prelude h.prelude rfl] at stops
        rw [(List.cons.inj stops).2]
        simp

end IsMatch

end Rule

/-- The matches of the pattern in a text from a position on, from left to right: each starts where
the first match is, the next is looked for where it ends, and after the last there is none. -/
inductive LeftmostMatches (t : Text) : Nat → List (Rule × Nat × Nat) → Prop
  | done {position : Nat}
      (none : ∀ r start stop, position ≤ start → ¬ Rule.IsMatch t r start stop) :
      LeftmostMatches t position []
  | next {position : Nat} {r : Rule} {start stop : Nat} {others : List (Rule × Nat × Nat)}
      (found : Rule.IsMatch t r start stop) (after : position ≤ start)
      (first : ∀ s i j, position ≤ i → i < start → ¬ Rule.IsMatch t s i j)
      (rest : LeftmostMatches t stop others) :
      LeftmostMatches t position ((r, start, stop) :: others)

namespace LeftmostMatches

variable {t : Text} {position : Nat}

theorem unique {ms ns : List (Rule × Nat × Nat)} (h : LeftmostMatches t position ms)
    (k : LeftmostMatches t position ns) : ms = ns := by
  induction h generalizing ns with
  | done none =>
      cases k with
      | done _ => rfl
      | next found after _ _ => exact absurd found (none _ _ _ after)
  | @next position r start stop others found after first rest ih =>
      cases k with
      | done none => exact absurd found (none _ _ _ after)
      | @next _ s start' stop' others' found' after' first' rest' =>
          have here : start = start' := by
            rcases Nat.lt_trichotomy start start' with lt | eq | gt
            · exact absurd found (first' _ _ _ after lt)
            · exact eq
            · exact absurd found' (first _ _ _ after' gt)
          subst here
          obtain ⟨rfl, rfl⟩ := found.unique found'
          rw [ih rest']

/-- Text in which no match starts can be passed over. -/
theorem skip {position' : Nat} {ms : List (Rule × Nat × Nat)}
    (hle : position ≤ position')
    (clear : ∀ r start stop, position ≤ start → Rule.IsMatch t r start stop → position' ≤ start)
    (h : LeftmostMatches t position' ms) : LeftmostMatches t position ms := by
  cases h with
  | done none => exact .done fun r i j hi hm => none r i j (clear r i j hi hm) hm
  | next found after first rest =>
      refine .next found (hle.trans after) ?_ rest
      intro s i j hi hlt hm
      exact first s i j (clear s i j hi hm) hlt hm

end LeftmostMatches

namespace Sheet

theorem spansFrom_after (position : Nat) (front : Text) (s : Sheet) :
    spansFrom position (s.after front).rules = spansFrom (position + front.length) s.rules := by
  obtain ⟨rules, tail⟩ := s
  cases rules with
  | nil => rfl
  | cons entry rest => simp [after, spansFrom, Nat.add_assoc]

/-- The scan of a text after any front: the spans are the matches from the end of the front on. -/
theorem leftmostMatches_spansFrom (t front : Text) :
    LeftmostMatches (front ++ t) front.length (spansFrom front.length (read t).rules) := by
  revert front
  refine read_steps (P := fun t s => ∀ front,
    LeftmostMatches (front ++ t) front.length (spansFrom front.length s.rules)) ?_ ?_ ?_ t
  · intro t ht front
    refine .done fun r start stop hle h => ?_
    obtain ⟨i, j, -, match'⟩ := h.exists_shift hle
    exact Rule.IsMatch.not_of_ruleless ht match'
  · intro braces run rest hb hr ih front
    have after := ih (front ++ (braces ++ run ++ ['}']))
    rw [spansFrom_after]
    simp only [List.append_assoc, List.length_append, List.cons_append, List.nil_append] at after ⊢
    refine after.skip (Nat.le_add_right _ _) fun r start stop hle h => ?_
    obtain ⟨i, j, rfl, fromBraces⟩ := h.exists_shift hle
    obtain ⟨k, l, rfl, fromRun⟩ := fromBraces.exists_shift (fromBraces.after_braces hb)
    have := fromRun.after_stray hr.plain
    simp only [List.length_cons, List.length_nil]
    omega
  · intro braces run body rest hb hr hbody ih front
    let rule : Rule := ⟨run, body⟩
    have text : front ++ (braces ++ run ++ '{' :: (body ++ '}' :: rest)) =
        (front ++ braces) ++ (rule.text ++ rest) := by simp [rule, Rule.text]
    have found := @Rule.IsMatch.of_text (front ++ braces) rule rest hr hbody
    have after := ih (front ++ braces ++ rule.text)
    rw [List.append_assoc (front ++ braces), List.length_append] at after
    rw [text]
    simp only [cons, spansFrom]
    rw [← @List.length_append _ front]
    refine .next found (by simp) ?_ after
    intro s i j hle hlt h
    rw [List.append_assoc] at h
    obtain ⟨k, l, rfl, fromBraces⟩ := h.exists_shift hle
    have := fromBraces.after_braces hb
    simp only [List.length_append] at hlt
    omega

/-- The rules of a text, with their places, are the leftmost disjoint matches of the pattern, and no
other list is. -/
theorem leftmostMatches_iff_spans (t : Text) (matches' : List (Rule × Nat × Nat)) :
    LeftmostMatches t 0 matches' ↔ matches' = (read t).spans := by
  have scan : LeftmostMatches t 0 (read t).spans := leftmostMatches_spansFrom t []
  constructor
  · intro h
    exact h.unique scan
  · rintro rfl
    exact scan

end Sheet

end DesignTokens
