import DesignTokens.Proofs.PassedValues

/-!
A sheet without its values. What no blank is around and no separator belongs to stands in a sheet if
and only if it does in one of the values or in the sheet without them. Passes over values keep the
sheet without them, so what stands in the sheet afterwards is found value by value
(`Pass.infix_runAll_iff`).
-/
namespace DesignTokens

open Text

/-- Text without blanks at its ends and without the characters that separate the parts of a sheet.
-/
structure Text.Uncut (p : Text) : Prop extends IsSolid p where
  colon : ':' ∉ p
  entry_open : ';' ∉ p
  rule_start : '{' ∉ p
  rule_open : '}' ∉ p

namespace Block

theorem infix_valueOf_iff {p : Text} (h : IsSolid p) (raw : Text) :
    p <:+: valueOf raw ↔ p <:+: raw := by
  rw [← h.infix_trim_iff, trim_valueOf, h.infix_trim_iff]

/-- A body with empty values. -/
def bare (t : Text) : Text := (read t).textWith fun _ _ => []

variable {p : Text} (hp : Uncut p)
include hp

theorem infix_readsValue_iff {rest value following : Text} {closed : Bool}
    (h : ReadsValue rest value closed following) (front : Text) :
    p <:+: front ++ rest ↔ p <:+: front ∨ p <:+: value ∨ p <:+: following := by
  have name {blanks : Text} (hb : ∀ c ∈ blanks, isBlank c) :
      p <:+: front ++ blanks ↔ p <:+: front :=
    hp.infix_blank_iff (List.forall_mem_nil _) hb front
  cases h with
  | closed hb hne hr =>
      rw [← List.append_assoc, infix_append_cons_iff hp.colon, name hb,
        infix_append_cons_iff hp.entry_open, infix_valueOf_iff hp.toIsSolid]
  | last hb hne hr =>
      rw [← List.append_assoc, infix_append_cons_iff hp.colon, name hb,
        infix_valueOf_iff hp.toIsSolid, List.infix_nil, or_iff_left hp.ne_nil]

theorem infix_entry_iff (e : Entry) (front following : Text) :
    p <:+: front ++ (e.textWith [] ++ following) ↔
      p <:+: front ++ (e.lead ++ e.name) ∨ p <:+: following := by
  have blank (t : Text) : p <:+: ' ' :: t ↔ p <:+: t :=
    @infix_blank_append p [' '] t (List.forall_mem_singleton.2 rfl) hp.ne_nil hp.head
  have text : front ++ (e.textWith [] ++ following) = front ++ (e.lead ++ e.name) ++
      ':' :: (' ' :: ((if e.closed then [';'] else []) ++ following)) := by
    simp [textWith_entry]
  rw [text, infix_append_cons_iff hp.colon, blank]
  cases e.closed with
  | false => rfl
  | true =>
      have stop := @infix_append_cons_iff p [] following ';' hp.entry_open
      rw [List.infix_nil, or_iff_right hp.ne_nil] at stop
      exact or_congr_right stop

/-- What stands in a body stands in a value or in the body without its values. -/
theorem infix_iff_bare (front t : Text) : p <:+: front ++ t ↔
    p <:+: front ++ bare t ∨ ∃ e ∈ (read t).entries, p <:+: e.value := by
  refine read_steps (P := fun t b => ∀ front, p <:+: front ++ t ↔
    p <:+: front ++ b.textWith (fun _ _ => []) ∨ ∃ e ∈ b.entries, p <:+: e.value) ?_ ?_ ?_ t front
  · intro t _ front
    simp [textWith]
  · intro lead name rest value closed following _ _ _ hv ih front
    have later := ih []
    rw [List.nil_append, List.nil_append] at later
    rw [← List.append_assoc, infix_readsValue_iff hp hv, textWith_cons, infix_entry_iff hp, later,
      or_left_comm (a := p <:+: value), ← or_assoc, cons, List.exists_mem_cons_iff]
  · intro lead name rest _ _ _ _ ih front
    rw [textWith_after, ← List.append_assoc, ← List.append_assoc front (lead ++ name), ih]
    refine or_congr_right ?_
    rcases read rest with ⟨_ | ⟨e, entries⟩, tail⟩
    · rfl
    · simp [after]

end Block

namespace Sheet

/-- A sheet with empty values. -/
def bare (t : Text) : Text := mapValues (fun _ _ _ => []) t

theorem infix_iff_bare {p : Text} (hp : Uncut p) (t : Text) :
    p <:+: t ↔ p <:+: bare t ∨ ∃ d ∈ Declaration.raw t, p <:+: d.value := by
  have values : (∃ d ∈ Declaration.raw t, p <:+: d.value) ↔
      ∃ entry ∈ (read t).rules, ∃ e ∈ (Block.read entry.2.body).entries, p <:+: e.value := by
    constructor
    · rintro ⟨d, hd, inside⟩
      obtain ⟨entry, h, hd⟩ := List.mem_flatMap.1 hd
      obtain ⟨e, he, rfl⟩ := List.mem_map.1 hd
      exact ⟨entry, h, e, he, inside⟩
    · rintro ⟨entry, h, e, he, inside⟩
      exact ⟨_, Declaration.mem_raw_of_entry h he, inside⟩
  rw [values]
  refine read_steps (P := fun t s => ∀ front, p <:+: front ++ t ↔
    p <:+: front ++ (s.mapBodies fun _ => Block.bare).text ∨
      ∃ entry ∈ s.rules, ∃ e ∈ (Block.read entry.2.body).entries, p <:+: e.value) ?_ ?_ ?_ t []
  · intro t _ front
    simp [mapBodies, text, rulesText]
  · intro braces run rest _ _ ih front
    have text : front ++ (braces ++ run ++ '}' :: rest) =
        (front ++ (braces ++ run ++ ['}'])) ++ rest := by simp
    rw [text, ih, mapBodies_after, text_after, List.append_assoc]
    refine or_congr_right ?_
    rcases read rest with ⟨_ | ⟨entry, rules⟩, tail⟩
    · rfl
    · simp [after]
  · intro braces run body rest _ _ _ ih front
    have body_iff := Block.infix_iff_bare hp [] body
    have later := ih []
    rw [List.nil_append, List.nil_append] at body_iff later
    have cut (body rest : Text) : p <:+: front ++ (braces ++ run ++ '{' :: (body ++ '}' :: rest)) ↔
        p <:+: front ++ (braces ++ run) ∨ p <:+: body ∨ p <:+: rest := by
      rw [← List.append_assoc, infix_append_cons_iff hp.rule_start,
        infix_append_cons_iff hp.rule_open]
    rw [cut, body_iff, later, mapBodies_cons, text_cons, cut, or_or_or_comm, ← or_assoc,
      cons, List.exists_mem_cons_iff]

/-- The sheet without its values does not depend on them. -/
theorem bare_mapValues (f : Text → Text → Text → Text) (t : Text)
    (hf : ∀ d ∈ Declaration.raw t, Value.Fits (f d.selector d.property d.value)) :
    bare (mapValues f t) = bare t := by
  rw [bare, mapValues, read_mapValues f t fun d hd => (hf d hd).rule_open, bare, mapValues]
  simp only [mapBodies, List.map_map, text]
  refine congrArg (rulesText · ++ _) (List.map_congr_left fun entry h => ?_)
  have plain : ∀ e ∈ (Block.read entry.2.body).entries,
      ';' ∉ f (Text.trim entry.2.selector) e.property e.value :=
    fun e he => (hf _ (Declaration.mem_raw_of_entry h he)).entry_open
  simp only [Function.comp, Block.read_textWith _ _ plain]
  simp only [Block.withValues, Block.textWith, List.flatMap_map]
  rfl

end Sheet

namespace Pass

variable {names : List Text} {passes : List Pass} {p : Text}

/-- What stands in a sheet after some passes stands in what they make of a value, or in the sheet
without its values. -/
theorem infix_runAll_iff (hr : ∀ name ∈ names, Value.Fits (reference name)) (hp : Uncut p)
    (h : ∀ q ∈ passes, q.Inserts names) (t : Text) : p <:+: runAll passes t ↔
      p <:+: Sheet.bare t ∨
        ∃ d ∈ Declaration.raw t, p <:+: applyAll passes d.property d.value := by
  induction passes generalizing t with
  | nil => exact Sheet.infix_iff_bare hp t
  | cons q passes ih =>
      have inserts := h q List.mem_cons_self
      have bare : Sheet.bare (q.run t) = Sheet.bare t := by
        cases q with
        | values f => exact Sheet.bare_mapValues _ t fun d hd =>
            (inserts _ _).fits hr (Declaration.infix_of_mem_raw hd).2
        | text f => cases inserts
      rw [runAll_cons, ih (fun q' hq' => h q' (List.mem_cons_of_mem q hq')), bare,
        inserts.raw_run hr]
      simp only [List.mem_map, exists_exists_and_eq_and]
      rfl

end Pass

end DesignTokens
