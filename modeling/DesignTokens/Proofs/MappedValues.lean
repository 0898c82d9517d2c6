import DesignTokens.Proofs.BlockReading
import DesignTokens.Proofs.SheetReading
import Mathlib

/-!
A stylesheet with other values is read as the stylesheet that it was, with these values. A value may
be any text that ends neither its entry nor its rule. Main statement: `parse_mapValues`.
-/
namespace DesignTokens

/-- Text that can be a value: it ends neither its entry nor its rule. -/
structure Value.Fits (value : Text) : Prop where
  entry_open : ';' ∉ value
  rule_open : '}' ∉ value

namespace Block

theorem trim_valueOf (raw : Text) : Text.trim (valueOf raw) = Text.trim raw := by
  unfold valueOf
  split
  · rename_i h
    have blank := Text.trimLeft_eq_nil_iff.1 h
    rw [Text.trim_eq_nil_of_blank blank,
      Text.trim_eq_nil_of_blank fun c hc => blank c (List.mem_of_mem_drop hc)]
  · rw [Text.trim, Text.trimLeft_trimLeft, Text.trim]

theorem rest_subset {t value rest : Text} {closed : Bool} (h : ReadsValue t value closed rest) :
    rest ⊆ t := by
  intro c hc
  cases h with
  | closed _ _ _ => simp [hc]
  | last _ _ _ => cases hc

theorem notMem_textWith {f : Text → Text → Text} {t : Text} (ht : '}' ∉ t)
    (hf : ∀ e ∈ (read t).entries, '}' ∉ f e.property e.value) : '}' ∉ (read t).textWith f := by
  revert ht hf
  refine read_steps (P := fun t b => '}' ∉ t → (∀ e ∈ b.entries, '}' ∉ f e.property e.value) →
    '}' ∉ b.textWith f) ?_ ?_ ?_ t
  · intro t _ ht _
    simpa [textWith] using ht
  · intro lead name rest value closed following hl hn hstop hv ih ht hf
    let e : Entry := ⟨lead, name, value, closed⟩
    simp only [List.mem_append, not_or] at ht
    have plain : '}' ∉ f e.property value := hf e (by simp [cons, e])
    have others := ih (fun h => ht.2 (rest_subset hv h)) fun e he => hf e (by simp [cons, he])
    have stop : '}' ∉ if closed then [';'] else [] := by split <;> simp
    rw [textWith_cons, textWith_entry]
    simp only [List.mem_append, List.mem_cons, not_or]
    exact ⟨⟨ht.1, ⟨by decide, by decide, plain⟩, stop⟩, others⟩
  · intro lead name rest hl hn hstop hv ih ht hf
    simp only [List.mem_append, not_or] at ht
    have others := ih ht.2 ((forall_mem_entries_after
      (P := fun name value => '}' ∉ f (Text.lower name) value) _ _).1 hf)
    rw [textWith_after]
    simp only [List.mem_append, not_or]
    exact ⟨ht.1, others⟩

end Block

namespace Declaration

/-- The declarations of a rule with their values as they are written. -/
def rawOfRule (r : Rule) : List Declaration :=
  (Block.read r.body).entries.map fun e => ⟨Text.trim r.selector, e.property, e.value⟩

def raw (t : Text) : List Declaration := (Sheet.read t).rules.flatMap fun (_, r) => rawOfRule r

theorem parse_eq_map_raw (t : Text) :
    parse t = (raw t).map fun d => { d with value := Text.trim d.value } := by
  simp only [parse, raw, ofRule, rawOfRule, List.map_flatMap, List.map_map]
  rfl

theorem mem_raw_of_entry {t : Text} {entry : Text × Rule} {e : Entry}
    (h : entry ∈ (Sheet.read t).rules) (he : e ∈ (Block.read entry.2.body).entries) :
    ⟨Text.trim entry.2.selector, e.property, e.value⟩ ∈ raw t :=
  List.mem_flatMap.2 ⟨entry, h, List.mem_map.2 ⟨e, he, rfl⟩⟩

end Declaration

namespace Sheet

theorem mapBodies_after (f : Text → Text → Text) (front : Text) (s : Sheet) :
    (s.after front).mapBodies f = (s.mapBodies f).after front := by
  obtain ⟨rules, tail⟩ := s
  cases rules with
  | nil => rfl
  | cons entry rest => rfl

theorem mapBodies_cons (f : Text → Text → Text) (gap : Text) (r : Rule) (s : Sheet) :
    (s.cons gap r).mapBodies f =
      (s.mapBodies f).cons gap ⟨r.selector, f (Text.trim r.selector) r.body⟩ := rfl

theorem text_cons (gap : Text) (r : Rule) (s : Sheet) :
    (s.cons gap r).text = gap ++ r.selector ++ '{' :: (r.body ++ '}' :: s.text) := by
  simp [cons, text, rulesText, Rule.text]

theorem forall_mem_rules_after {P : Rule → Prop} (front : Text) (s : Sheet) :
    (∀ entry ∈ (s.after front).rules, P entry.2) ↔ ∀ entry ∈ s.rules, P entry.2 := by
  obtain ⟨rules, tail⟩ := s
  cases rules with
  | nil => simp [after]
  | cons entry rest => simp [after]

theorem mem_rules_body {t : Text} : ∀ entry ∈ (read t).rules, '}' ∉ entry.2.body := by
  refine read_steps (P := fun _ s => ∀ entry ∈ s.rules, '}' ∉ entry.2.body) ?_ ?_ ?_ t
  · simp
  · intro braces run rest hb hr ih
    exact (forall_mem_rules_after (P := fun r => '}' ∉ r.body) _ _).2 ih
  · intro braces run body rest hb hr hbody ih entry he
    rcases List.mem_cons.1 he with rfl | he
    · exact hbody
    · exact ih entry he

theorem read_text_mapBodies (f : Text → Text → Text) (t : Text)
    (hf : ∀ entry ∈ (read t).rules, '}' ∉ f (Text.trim entry.2.selector) entry.2.body) :
    read ((read t).mapBodies f).text = (read t).mapBodies f := by
  revert hf
  refine read_steps (P := fun _ s =>
    (∀ entry ∈ s.rules, '}' ∉ f (Text.trim entry.2.selector) entry.2.body) →
      read (s.mapBodies f).text = s.mapBodies f) ?_ ?_ ?_ t
  · intro t ht _
    simpa [mapBodies, text, rulesText] using read_ruleless ht
  · intro braces run rest hb hr ih hf
    have others := ih ((forall_mem_rules_after
      (P := fun r => '}' ∉ f (Text.trim r.selector) r.body) _ _).1 hf)
    rw [mapBodies_after, text_after]
    simpa [others] using read_stray hb hr ((read rest).mapBodies f).text
  · intro braces run body rest hb hr hbody ih hf
    have plain := hf (braces, ⟨run, body⟩) (by simp [cons])
    have others := ih fun entry he => hf entry (by simp [cons, he])
    rw [mapBodies_cons, text_cons, read_rule hb hr plain, others]

/-- A sheet whose values are mapped is read as the same rules, each with its body written again. -/
theorem read_mapValues (f : Text → Text → Text → Text) (t : Text)
    (hf : ∀ d ∈ Declaration.raw t, '}' ∉ f d.selector d.property d.value) :
    read (mapValues f t) =
      (read t).mapBodies fun selector body => (Block.read body).textWith (f selector) := by
  refine read_text_mapBodies _ t fun entry h => ?_
  refine Block.notMem_textWith (mem_rules_body entry h) fun e he => ?_
  exact hf _ (Declaration.mem_raw_of_entry h he)

end Sheet

namespace Declaration

/-- The values of a sheet whose values are mapped are the new values, each after a blank. -/
theorem raw_mapValues (f : Text → Text → Text → Text) (t : Text)
    (hf : ∀ d ∈ raw t, Value.Fits (f d.selector d.property d.value)) :
    raw (Sheet.mapValues f t) = (raw t).map fun d =>
      { d with value := Block.valueOf (' ' :: f d.selector d.property d.value) } := by
  rw [raw, Sheet.read_mapValues f t fun d hd => (hf d hd).rule_open]
  simp only [raw, Sheet.mapBodies, List.flatMap_map, List.map_flatMap]
  refine List.flatMap_congr fun entry h => ?_
  have plain : ∀ e ∈ (Block.read entry.2.body).entries,
      ';' ∉ f (Text.trim entry.2.selector) e.property e.value :=
    fun e he => (hf _ (mem_raw_of_entry h he)).entry_open
  simp only [rawOfRule, Block.read_textWith _ _ plain, Block.withValues, List.map_map]
  rfl

theorem parse_mapValues_of_fits (f : Text → Text → Text → Text) (t : Text)
    (hf : ∀ d ∈ raw t, Value.Fits (f d.selector d.property d.value)) :
    parse (Sheet.mapValues f t) = (raw t).map fun d =>
      { d with value := Text.trim (f d.selector d.property d.value) } := by
  rw [parse_eq_map_raw, raw_mapValues f t hf, List.map_map]
  refine List.map_congr_left fun d _ => ?_
  simp only [Function.comp, Block.trim_valueOf, Text.trim_cons_of_blank (c := ' ') rfl]

/-- Mapping the values of a sheet commutes with reading its declarations, and keeps all text outside
of the rules and every selector as they are written. A mapped value may be empty or blank and may
hold a colon or a `{`; the function that is mapped may see a context made from the selector. -/
theorem parse_mapValues {γ : Type} (context : Text → γ) (f : γ → Text → Text → Text)
    (hf : ∀ c property value, ';' ∉ f c property value ∧ '}' ∉ f c property value) (t : Text) :
    let mapped := Sheet.mapValues (fun selector => f (context selector)) t
    parse mapped = (raw t).map (fun d =>
      { d with value := Text.trim (f (context d.selector) d.property d.value) }) ∧
    (Sheet.read mapped).rules.map (fun (gap, r) => (gap, r.selector)) =
      (Sheet.read t).rules.map (fun (gap, r) => (gap, r.selector)) ∧
    (Sheet.read mapped).tail = (Sheet.read t).tail := by
  have fits (d : Declaration) : Value.Fits (f (context d.selector) d.property d.value) :=
    ⟨(hf _ _ _).1, (hf _ _ _).2⟩
  intro mapped
  refine ⟨?_, ?_, ?_⟩
  · rw [parse_eq_map_raw, raw_mapValues _ t fun d _ => fits d, List.map_map]
    refine List.map_congr_left fun d _ => ?_
    simp only [Function.comp, Block.trim_valueOf, Text.trim_cons_of_blank (c := ' ') rfl]
  · rw [Sheet.read_mapValues _ t fun d _ => (fits d).rule_open]
    simp [Sheet.mapBodies]
  · rw [Sheet.read_mapValues _ t fun d _ => (fits d).rule_open]
    rfl

theorem parse_mapValues_opening :
    let mapped := Sheet.mapValues (fun _ _ _ => " :\x7b ".toList) "\x7d a\x7bB : 1;c:\x7d tail".toList
    (∀ (_ : Unit) (_ _ : Text), ';' ∉ " :\x7b ".toList ∧ '}' ∉ " :\x7b ".toList) ∧
      parse mapped = [⟨['a'], ['b'], ":\x7b".toList⟩] ∧
      (Sheet.read mapped).rules.map (fun (gap, r) => (gap, r.selector)) = [(['}'], " a".toList)] ∧
      (Sheet.read mapped).tail = " tail".toList := by
  have fits : ∀ (_ : Unit) (_ _ : Text), ';' ∉ " :\x7b ".toList ∧ '}' ∉ " :\x7b ".toList := by
    intros
    decide
  have mapped := parse_mapValues (fun _ => ()) (fun _ _ _ => " :\x7b ".toList) fits
    "\x7d a\x7bB : 1;c:\x7d tail".toList
  have sheet : Sheet.read "\x7d a\x7bB : 1;c:\x7d tail".toList =
    ⟨[(['}'], ⟨" a".toList, "B : 1;c:".toList⟩)], " tail".toList⟩ := by cbv
  have block : Block.read "B : 1;c:".toList = ⟨[⟨[], ['B'], ['1'], true⟩], "c:".toList⟩ := by cbv
  refine ⟨fits, mapped.1.trans ?_, mapped.2.1.trans ?_, mapped.2.2.trans ?_⟩
  · simp only [raw, sheet, List.flatMap_cons, List.flatMap_nil, rawOfRule, block]
    decide
  · rw [sheet]
    rfl
  · rw [sheet]

end Declaration

end DesignTokens
