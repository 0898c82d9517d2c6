import DesignTokens.Proofs.ConvertedValues
import DesignTokens.Proofs.OrderedMaps

/-!
A stylesheet with its lengths converted declares each value converted by itself. In the rules of a
selector `em` stands for the last font size other than zero that any rule of the selector sets,
before or after. Main statement: `parse_convertSheet`.
-/
namespace DesignTokens

open Text

/-! ### Font sizes of selectors -/

/-- The declarations that set a font size other than zero for a selector. -/
def sizeDeclarations (b : LengthBases) (t selector : Text) : List Declaration :=
  (Declaration.parse t).filter fun d =>
    d.selector = selector ∧ d.property = "font-size".toList ∧ !(Length.pixels b d.value == 0.0)

/-- What `em` stands for in the rules of a selector. -/
def ruleSize (b : LengthBases) (t selector : Text) : Float :=
  match (sizeDeclarations b t selector).getLast? with
  | some d => Length.pixels b d.value
  | none => b.context

/-- The last declaration that sets a size for a selector decides. -/
theorem get?_fontSizes (b : LengthBases) (t selector : Text) :
    (fontSizes b t).get? selector =
      (sizeDeclarations b t selector).getLast?.map fun d => Length.pixels b d.value := by
  rw [fontSizes, sizeDeclarations]
  generalize Declaration.parse t = declarations
  induction declarations using List.reverseRecOn with
  | nil => rfl
  | append_singleton ds d ih =>
      rw [List.foldl_concat, List.filter_append, List.getLast?_append]
      by_cases sets : d.property = "font-size".toList ∧ !(Length.pixels b d.value == 0.0)
      · rw [if_pos sets, OrderedMap.insert, OrderedMap.get?_alter, ih]
        by_cases same : d.selector = selector
        · simp [same, sets]
        · simp [same, Ne.symm same]
      · rw [if_neg sets, ih]
        have dropped : ¬ (d.selector = selector ∧ d.property = "font-size".toList ∧
          !(Length.pixels b d.value == 0.0)) := fun all => sets all.2
        rw [List.filter_cons_of_neg (by simpa using dropped)]
        rfl

theorem ruleSize_eq (b : LengthBases) (t selector : Text) :
    ruleSize b t selector = ((fontSizes b t).get? selector).getD b.context := by
  rw [ruleSize, get?_fontSizes]
  cases (sizeDeclarations b t selector).getLast? <;> rfl

theorem forSelector_eq (b : LengthBases) (t selector : Text) :
    b.forSelector (fontSizes b t) selector = b.withRuleSize (ruleSize b t selector) := by
  rw [LengthBases.forSelector, ruleSize_eq]

/-! ### Converted values -/

theorem Text.forall_mem_mapTokens {P : Char → Prop} {f : Text → Text}
    (hf : ∀ part, (∀ c ∈ part, P c) → ∀ c ∈ f part, P c) (r : Recognizer) {t : Text}
    (h : ∀ c ∈ t, P c) : ∀ c ∈ mapTokens r f t, P c := by
  rw [← pieces_text r t, List.forall_mem_flatMap] at h
  rw [mapTokens, List.forall_mem_flatMap]
  intro p hp
  cases p with
  | plain c => exact h _ hp
  | token part => exact hf part (h _ hp)

namespace Conversion

variable {chain : List Conversion}

section Characters

variable {P : Char → Prop} (number : ∀ c, Number.isNumberChar c → P c)
include number

theorem forall_mem_apply {c : Conversion} (unit : ∀ d ∈ c.target.name, P d) (b : LengthBases)
    {token : Text} (h : ∀ d ∈ token, P d) : ∀ d ∈ apply b token c, P d := by
  unfold apply
  split
  · split_ifs
    · split
      · rw [lengthText]
        exact List.forall_mem_append.2
          ⟨fun d hd => number d (Number.isNumberChar_trimmed d hd), unit⟩
      · exact h
    · exact h
  · exact h

variable (units : ∀ c ∈ chain, ∀ d ∈ c.target.name, P d)
include units

theorem forall_mem_applyAll (b : LengthBases) (token : Text) (h : ∀ d ∈ token, P d) :
    ∀ d ∈ applyAll b chain token, P d :=
  List.foldlRecOn (motive := fun size => ∀ d ∈ size, P d) chain (apply b) h
    fun _ hsize c hc => forall_mem_apply number (units c hc) b hsize

/-- A converted value is written in characters of the value, of numbers and of units. -/
theorem forall_mem_convert (b : LengthBases) {value : Text} (h : ∀ d ∈ value, P d) :
    ∀ d ∈ convert b chain value, P d := by
  have flat {t : Text} (ht : ∀ d ∈ t, P d) : ∀ d ∈ convertFlat b chain t, P d :=
    forall_mem_mapTokens (forall_mem_applyAll number units b) Length.convertible ht
  fun_induction convert b chain value with
  | case1 value hcut => exact flat h
  | case2 value front head tail hcut hclose => exact flat h
  | case3 value front head tail hcut inner rest hclose inner_ih rest_ih =>
      rw [text_of_cutCall? hcut, text_of_cutClosing? hclose] at h
      simp only [List.forall_mem_append, List.forall_mem_cons] at h ⊢
      obtain ⟨⟨hfront, hhead⟩, hinner, hclosing, hrest⟩ := h
      exact ⟨⟨⟨flat hfront, hhead⟩, inner_ih hinner⟩, hclosing, rest_ih hrest⟩

end Characters

/-- The names of known units can stand in a value. -/
theorem fits_of_known {u : LengthUnit} (h : u ∈ LengthUnit.known) : Value.Fits u.name := by
  have declarable := Value.isDeclarable_of_inert (LengthUnit.isInert_name h)
  exact (Value.isDeclarable_iff.1 declarable).1

theorem fits_convert (units : ∀ c ∈ chain, Value.Fits c.target.name) (b : LengthBases)
    {value : Text} (h : Value.Fits value) : Value.Fits (convert b chain value) := by
  have absent {stop : Char} (hs : Number.isNumberChar stop = false)
      (hu : ∀ c ∈ chain, stop ∉ c.target.name) (hv : stop ∉ value) :
      stop ∉ convert b chain value := by
    intro mem
    refine forall_mem_convert (P := (· ≠ stop)) ?_ ?_ b ?_ stop mem rfl
    · rintro c hc rfl
      rw [hs] at hc
      cases hc
    · exact fun c hc d hd same => hu c hc (same ▸ hd)
    · exact fun d hd same => hv (same ▸ hd)
  exact ⟨absent rfl (fun c hc => (units c hc).entry_open) h.entry_open,
    absent rfl (fun c hc => (units c hc).rule_open) h.rule_open⟩

theorem convert_nil (b : LengthBases) (value : Text) : convert b [] value = value := by
  have flat (t : Text) : convertFlat b [] t = t := by
    have same : Piece.mapToken (applyAll b []) = Piece.text := by
      funext p
      cases p <;> rfl
    rw [convertFlat, mapTokens, same, pieces_text]
  fun_induction convert b [] value with
  | case1 value hcut => exact flat value
  | case2 value front head tail hcut hclose => exact flat value
  | case3 value front head tail hcut inner rest hclose inner_ih rest_ih =>
      rw [flat, inner_ih, rest_ih, text_of_cutCall? hcut, text_of_cutClosing? hclose]
      simp

/-- The values of a converted sheet are those of the sheet, each converted by itself with the size
that its selector has. The rules keep their selectors and the text between them. Of a unit it takes
no more than a name that neither ends a declaration nor its rule (`fits_of_known`). -/
theorem parse_convertSheet (b : LengthBases) (units : ∀ c ∈ chain, Value.Fits c.target.name)
    (t : Text) :
    let converted := convertSheet b chain t
    Declaration.parse converted = (Declaration.raw t).map (fun d =>
      { d with
        value := trim (convert (b.withRuleSize (ruleSize b t d.selector)) chain d.value) }) ∧
    (Sheet.read converted).rules.map (fun (gap, r) => (gap, r.selector)) =
      (Sheet.read t).rules.map (fun (gap, r) => (gap, r.selector)) ∧
    (Sheet.read converted).tail = (Sheet.read t).tail := by
  intro converted
  by_cases none : chain = []
  · subst none
    refine ⟨?_, rfl, rfl⟩
    simp only [convert_nil]
    exact Declaration.parse_eq_map_raw t
  · have mapped : converted = Sheet.mapValues (fun selector _ value =>
        convert (b.withRuleSize (ruleSize b t selector)) chain value) t := by
      simp only [converted, convertSheet, List.isEmpty_eq_false_iff.2 none, Bool.false_eq_true,
        if_false, forSelector_eq]
    have fits (d : Declaration) (hd : d ∈ Declaration.raw t) :=
      fits_convert units (b.withRuleSize (ruleSize b t d.selector))
        (Declaration.infix_of_mem_raw hd).2
    rw [mapped]
    refine ⟨Declaration.parse_mapValues_of_fits _ t fits, ?_, ?_⟩
    · rw [Sheet.read_mapValues _ t fun d hd => (fits d hd).rule_open]
      simp [Sheet.mapBodies]
    · rw [Sheet.read_mapValues _ t fun d hd => (fits d hd).rule_open]
      rfl

theorem parse_convertSheet_laterSize :
    let converted := convertSheet {} [⟨.em, .px⟩]
      "a\x7bwidth:2em\x7db\x7bwidth:2em\x7d a\x7bfont-size:10px;font-size:0px\x7d".toList
    (∀ c ∈ [(⟨.em, .px⟩ : Conversion)], Value.Fits c.target.name) ∧
      Declaration.parse converted =
        [⟨['a'], "width".toList, "20px".toList⟩, ⟨['b'], "width".toList, "32px".toList⟩,
          ⟨['a'], "font-size".toList, "10px".toList⟩, ⟨['a'], "font-size".toList, "0px".toList⟩] ∧
      (Sheet.read converted).rules.map (fun (gap, r) => (gap, r.selector)) =
        [([], ['a']), ([], ['b']), ([], " a".toList)] ∧
      (Sheet.read converted).tail = [] := by
  have units : ∀ c ∈ [(⟨.em, .px⟩ : Conversion)], Value.Fits c.target.name :=
    List.forall_mem_singleton.2 (fits_of_known (.head _))
  obtain ⟨declared, selectors, tail⟩ := parse_convertSheet {} units
    "a\x7bwidth:2em\x7db\x7bwidth:2em\x7d a\x7bfont-size:10px;font-size:0px\x7d".toList
  refine ⟨units, declared.trans ?_, selectors.trans ?_, tail.trans ?_⟩ <;> decide +kernel

end Conversion

end DesignTokens
