import DesignTokens.Proofs.ImportantValues

/-!
Flags that passes keep and flags that they drop. A color is replaced segment by segment, so a
declaration that stands at its place after the pass for colors ends with a flag if it did before. A
pass over values leaves each declaration at its place and brings no flag in. Literals that are cut
out of values leave a flag; a literal that is a value as a whole takes it along.
-/
namespace DesignTokens

open Text Value

section Colors

variable {items : List (Text × Text)}
  (hi : ∀ e ∈ items, Layout.Replaceable e.1 ∧ TokenName.Valid e.2)
include hi

/-- Literals that can stand in values are replaced segment by segment. -/
theorem segments_replaceEach (t : Text) :
    segments (replaceEach items t) = (segments t).map (replaceEach items) := by
  have one {literal name : Text} (hl : Layout.Replaceable literal) (hn : TokenName.Valid name)
      (t : Text) : segments (replaceAll literal (reference name) t) =
        (segments t).map (replaceAll literal (reference name)) := by
    have replaced {s : Text} (h : ∀ c ∈ s, isStop c = false) :
        ∀ c ∈ replaceAll literal (reference name) s, isStop c = false := by
      have anew : Inserted [name] s (replaceAll literal (reference name) s) :=
        .replaceAll (by simp) literal s
      exact (anew.fits (fits_reference (by simpa using hn)) (.of_stopless h)).stopless
    induction t using segments_steps with
    | last t h =>
        rw [segments_of_stopless h, segments_of_stopless (replaced h)]
        rfl
    | next s c t h stop ih =>
        have stops : Layout.Stops (c :: t) := fun d hd => by
          cases hd
          exact isStop_iff.1 stop
        have within : ∀ a q, literal = a ++ q → a ≠ [] → q ≠ [] → ¬ q <+: c :: t :=
          fun a q text _ hq => hl.notMem_of_stops stops text hq
        have first : ¬ literal <+: c :: t :=
          hl.notMem_of_stops stops (List.nil_append literal).symm hl.ne_nil
        rw [replaceAll_append hl.ne_nil within, replaceAll_cons hl.ne_nil first,
          segments_append_cons stop, segments_append_cons stop, ih, segments_of_stopless h,
          segments_of_stopless (replaced h)]
        rfl
  induction items generalizing t with
  | nil => exact (List.map_id _).symm
  | cons e items ih =>
      have first := one (hi e (by simp)).1 (hi e (by simp)).2 t
      have others := ih (fun e he => hi e (by simp [he])) (replaceAll e.1 (reference e.2) t)
      rw [first, List.map_map] at others
      exact others

omit hi in
theorem isImportant_replaceEach_iff (hc : ∀ e ∈ items, ClearOfFlag e.1) {v : Text} :
    IsImportant (replaceEach items v) ↔ IsImportant v := by
  induction items generalizing v with
  | nil => rfl
  | cons e items ih =>
      have one : IsImportant (replaceAll e.1 (reference e.2) v) ↔ IsImportant v := by
        have anew : Inserted [e.2] v (replaceAll e.1 (reference e.2) v) :=
          .replaceAll (by simp) e.1 v
        exact ⟨anew.isImportant, (hc e (by simp)).isImportant_replaceAll⟩
      exact (ih fun e he => hc e (by simp [he])).trans one

/-- The pass for colors keeps the flags of the declarations that it leaves at their place. -/
theorem isImportant_iff_of_placed (hc : ∀ e ∈ items, ClearOfFlag e.1) {t : Text}
    {e e' : Nat × Declaration} (he : e ∈ Declaration.placed t)
    (he' : e' ∈ Declaration.placed (replaceEach items t)) (place : e'.1 = e.1) :
    IsImportant e'.2.value ↔ IsImportant e.2.value := by
  obtain ⟨before, v, segment, value⟩ := Declaration.exists_segment he
  obtain ⟨before', v', segment', value'⟩ := Declaration.exists_segment he'
  rw [segments_replaceEach hi, List.getElem?_map, place, segment, Option.map_some] at segment'
  calc IsImportant e'.2.value
      ↔ IsImportant v' := by rw [value', isImportant_trim]
    _ ↔ IsImportant (before' ++ ':' :: v') := isImportant_append_cons.symm
    _ ↔ IsImportant (before ++ ':' :: v) := by
        rw [← Option.some.inj segment', isImportant_replaceEach_iff hc]
    _ ↔ IsImportant v := isImportant_append_cons
    _ ↔ IsImportant e.2.value := by rw [value, isImportant_trim]

end Colors

/-! ### The passes over values -/

namespace Pass

variable {names : List Text} {p : Pass} {passes before after : List Pass} {property v : Text}

section Placed

variable (hr : ∀ name ∈ names, Fits (reference name)) (h : ∀ p ∈ passes, p.Inserts names)
include hr h

theorem places_runAll (t : Text) : Declaration.places (runAll passes t) = Declaration.places t := by
  induction passes generalizing t with
  | nil => rfl
  | cons p passes ih =>
      rw [runAll_cons, ih fun q hq => h q (by simp [hq])]
      have inserts := h p (by simp)
      cases p with
      | values f => exact Declaration.places_mapValues (fun _ => f) t fun d hd =>
          (inserts _ _).fits hr (Declaration.infix_of_mem_raw hd).2
      | text f => cases inserts

theorem placed_runAll (t : Text) : Declaration.placed (runAll passes t) =
    ((Declaration.places t).zip (Declaration.raw t)).map fun e =>
      (e.1, { e.2 with value := trim (applyAll passes e.2.property e.2.value) }) := by
  rw [Declaration.placed, places_runAll hr h, parse_runAll hr h, List.zip_map_right]
  rfl

/-- Each declaration is at its place with its new value after the passes. -/
theorem exists_after {t : Text} {e : Nat × Declaration} (he : e ∈ Declaration.placed t) :
    ∃ d ∈ Declaration.raw t, e.2 = { d with value := trim d.value } ∧
      (e.1, { d with value := trim (applyAll passes d.property d.value) }) ∈
        Declaration.placed (runAll passes t) := by
  rw [Declaration.placed_eq_map_raw] at he
  obtain ⟨x, hx, rfl⟩ := List.mem_map.1 he
  rw [placed_runAll hr h]
  exact ⟨x.2, (List.of_mem_zip hx).2, rfl, List.mem_map_of_mem hx⟩

/-- Each declaration after the passes was at its place with its old value before. -/
theorem exists_before {t : Text} {e : Nat × Declaration}
    (he : e ∈ Declaration.placed (runAll passes t)) :
    ∃ d ∈ Declaration.raw t, (e.1, { d with value := trim d.value }) ∈ Declaration.placed t ∧
      e.2 = { d with value := trim (applyAll passes d.property d.value) } := by
  rw [placed_runAll hr h] at he
  obtain ⟨x, hx, rfl⟩ := List.mem_map.1 he
  rw [Declaration.placed_eq_map_raw]
  exact ⟨x.2, (List.of_mem_zip hx).2, List.mem_map_of_mem hx, rfl⟩

end Placed

theorem isImportant_apply_values {f : Text → Text → Text} :
    IsImportant ((values f).apply property v) ↔ IsImportant (f property v) := by
  rw [apply, isImportant_valueOf, IsImportant, trim_cons_of_blank rfl, IsImportant]

theorem Inserts.isImportant_apply (h : p.Inserts names) (hv : IsImportant (p.apply property v)) :
    IsImportant v := by
  cases p with
  | values f => exact (h property v).isImportant (isImportant_apply_values.1 hv)
  | text f => exact hv

/-- No pass over values brings a flag in. -/
theorem isImportant_of_applyAll (h : ∀ p ∈ passes, p.Inserts names)
    (hv : IsImportant (applyAll passes property v)) : IsImportant v := by
  induction passes generalizing v with
  | nil => exact hv
  | cons p passes ih =>
      exact (h p (by simp)).isImportant_apply (ih (fun q hq => h q (by simp [hq])) hv)

/-- One pass drops the flag, if there is one, of the values that those before it leave. -/
theorem not_isImportant_applyAll {condition : Bool} (hv : Settled v)
    (hb : ∀ q ∈ before, q.Leaves property) (run : condition)
    (hp : ¬ IsImportant (p.apply property v)) (ha : ∀ q ∈ after, q.Inserts names) :
    ¬ IsImportant
      (applyAll (before ++ (TokenTables.passesIf condition p ++ after)) property v) := by
  rw [applyAll_passesIf_append hv hb run]
  exact fun hv => hp (isImportant_of_applyAll ha hv)

/-- A pass that keeps the flags of the values of a property. -/
def KeepsFlag (property : Text) : Pass → Prop
  | values f => ∀ v, IsImportant v → IsImportant (f property v)
  | text _ => False

theorem Leaves.keepsFlag (h : p.Leaves property) : p.KeepsFlag property := by
  cases p with
  | values f =>
      intro v hv
      rwa [h v]
  | text f => exact h

theorem KeepsFlag.isImportant_apply (h : p.KeepsFlag property) (hv : IsImportant v) :
    IsImportant (p.apply property v) := by
  cases p with
  | values f => exact isImportant_apply_values.2 (h v hv)
  | text f => exact hv

theorem isImportant_applyAll (h : ∀ p ∈ passes, p.KeepsFlag property) (hv : IsImportant v) :
    IsImportant (applyAll passes property v) := by
  induction passes generalizing v with
  | nil => exact hv
  | cons p passes ih =>
      exact ih (fun q hq => h q (by simp [hq])) ((h p (by simp)).isImportant_apply hv)

end Pass

namespace TokenMap

variable {m : TokenMap} {v name : Text}

theorem isImportant_substituteLone (hm : ∀ e ∈ m.entries, ClearOfFlag e.1) (hv : IsImportant v) :
    IsImportant (m.substituteLone .exact v) := by
  refine List.foldlRecOn (motive := IsImportant) m.byLength _ hv fun v hv e he => ?_
  exact (hm e (mem_byLength.1 he)).isImportant_replaceLone hv

/-- Literals in any letter case as references, one after another. -/
def replaceLones (items : List (Text × Text)) (v : Text) : Text :=
  items.foldl (fun v e => replaceLone .anyCase e.1 (reference e.2) v) v

theorem not_isImportant_replaceLones {items : List (Text × Text)} (h : ¬ IsImportant v) :
    ¬ IsImportant (replaceLones items v) := by
  have insertions : Insertions (items.map Prod.snd) v (replaceLones items v) :=
    .foldl (fun e he v => .ofInserted (.replaceLone (List.mem_map_of_mem he) .anyCase e.1 v)) v
  exact mt insertions.isImportant h

section Value

variable (first : nextIs isBlank v = false) (hv : trim v ≠ [])
include first hv

/-- Literals at least as long as a value leave it where they leave its flag. -/
theorem replaceLones_of_isImportant {items : List (Text × Text)}
    (long : ∀ e ∈ items, (trim v).length ≤ e.1.length) (h : IsImportant (replaceLones items v)) :
    replaceLones items v = v := by
  induction items with
  | nil => rfl
  | cons e items ih =>
      have one : replaceLone .anyCase e.1 (reference e.2) v = v :=
        replaceLone_of_isImportant first hv (long e (by simp))
          (not_imp_not.1 not_isImportant_replaceLones h)
      rw [replaceLones, List.foldl_cons, one] at h ⊢
      exact ih (fun e he => long e (by simp [he])) h

/-- A value with a token is replaced with its flag: before its turn come literals that are at least
as long. -/
theorem not_isImportant_substituteLone (token : m.get? (trim v) = some name) :
    ¬ IsImportant (m.substituteLone .anyCase v) := by
  have entry : (trim v, name) ∈ m.byLength :=
    mem_byLength.2 (OrderedMap.mem_of_get?_eq_some token)
  obtain ⟨before, after, split⟩ := List.append_of_mem entry
  have sorted := m.pairwise_byLength
  rw [split] at sorted
  have long : ∀ e ∈ before, (trim v).length ≤ e.1.length :=
    fun e he => (List.pairwise_append.1 sorted).2.2 e he _ List.mem_cons_self
  have steps : m.substituteLone .anyCase v = replaceLones after
      (replaceLone .anyCase (trim v) (reference name) (replaceLones before v)) := by
    rw [substituteLone, split, List.foldl_append, List.foldl_cons]
    rfl
  rw [steps]
  apply not_isImportant_replaceLones
  by_cases left : IsImportant (replaceLones before v)
  · rw [replaceLones_of_isImportant first hv long left]
    exact not_isImportant_replaceLone first hv
  · have one : Inserted [name] (replaceLones before v)
        (replaceLone .anyCase (trim v) (reference name) (replaceLones before v)) :=
      .replaceLone (by simp) .anyCase _ _
    exact mt one.isImportant left

end Value

end TokenMap

namespace TokenTables

variable {tokens : TokenTables} {features : List Feature} {property : Text}

theorem keepsFlag_onFamily {family : Text → Bool} {f : Text → Text}
    (hf : ∀ v, IsImportant v → IsImportant (f v)) :
    (Pass.values (onFamily family f)).KeepsFlag property := by
  intro v hv
  rw [onFamily]
  split
  · exact hf v hv
  · exact hv

theorem keepsFlag_latePasses
    (h : ∀ c ∈ [Category.spacing, .borderWidths, .durations, .easings],
      ∀ e ∈ (tokens.table c).entries, ClearOfFlag e.1) :
    ∀ p ∈ tokens.latePasses features, p.KeepsFlag property := by
  have lone {c : Category} (hc : c ∈ [Category.spacing, .borderWidths, .durations, .easings])
      (v : Text) : IsImportant v → IsImportant ((tokens.table c).substituteLone .exact v) :=
    TokenMap.isImportant_substituteLone (h c hc)
  apply forall_mem_latePasses
  · exact keepsFlag_onFamily (lone (by simp))
  · exact keepsFlag_onFamily (lone (by simp))
  · exact keepsFlag_onFamily fun v hv => lone (by simp) _ (lone (by simp) v hv)

end TokenTables

end DesignTokens
