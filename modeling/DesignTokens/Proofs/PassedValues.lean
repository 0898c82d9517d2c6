import DesignTokens.Proofs.ConvertedValues
import DesignTokens.Proofs.InsertedReferences
import DesignTokens.Proofs.ValueLayouts

/-!
Values that are passed over. A pass over values that only puts in references changes the values of a
sheet one by one and nothing else of it, so after some passes each declaration has the value that
these make of it in turn (`Pass.raw_runAll`). Most passes leave the values of a given property.
-/
namespace DesignTokens

open Text

namespace Value

/-- A value that is read again as it is after a colon and a blank. -/
def Settled (v : Text) : Prop := Block.valueOf (' ' :: v) = v

theorem settled_cons {c : Char} (hc : isBlank c = false) (rest : Text) : Settled (c :: rest) := by
  have first : trimLeft (' ' :: c :: rest) = c :: rest := by
    rw [trimLeft, List.dropWhile_cons_of_pos rfl, List.dropWhile_cons_of_neg (by simp [hc])]
  rw [Settled, Block.valueOf, first]

theorem settled_reference (name : Text) : Settled (reference name) := settled_cons rfl _

theorem trim_reference (name : Text) : trim (reference name) = reference name := by
  have last : (reference name).getLast?.any isBlank = false := by
    rw [reference, List.getLast?_concat]
    rfl
  exact trim_of_ends rfl last

theorem settled_valueOf {raw : Text} (h : raw ≠ []) : Settled (Block.valueOf raw) := by
  cases hraw : trimLeft raw with
  | cons c rest =>
      have first : isBlank c = false := by simpa using of_dropWhile_eq_cons hraw
      rw [Block.valueOf, hraw]
      exact settled_cons first rest
  | nil =>
      obtain ⟨front, c, rfl⟩ := List.eq_nil_or_concat raw |>.resolve_left h
      have blank : isBlank c := trimLeft_eq_nil_iff.1 hraw c (by simp)
      have last : Block.valueOf (front.concat c) = [c] := by
        rw [Block.valueOf, hraw]
        simp
      have again : trimLeft [' ', c] = [] := by
        rw [trimLeft_eq_nil_iff]
        rintro d hd
        rcases List.mem_cons.1 hd with rfl | hd
        · rfl
        · rwa [List.mem_singleton.1 hd]
      rw [last, Settled, Block.valueOf, again]
      rfl

end Value

open Value

theorem Layout.settled_of_mem_raw {l : Layout} (h : l.Admits id) : ∀ d ∈ l.raw, Settled d.value := by
  induction l with
  | tail t => exact fun _ hd => nomatch hd
  | slot front d rest ih =>
      intro d' hd
      rcases List.mem_cons.1 hd with rfl | hd
      · exact settled_valueOf h.1.1
      · exact ih h.2 d' hd

theorem Declaration.settled_of_mem_raw {t : Text} : ∀ d ∈ raw t, Settled d.value := by
  obtain ⟨l, hl⟩ := Sheet.exists_lays t
  rw [hl.raw_eq]
  exact Layout.settled_of_mem_raw hl.admits

namespace Pass

variable {names : List Text} {p : Pass} {passes others : List Pass} {property v : Text}

/-- A pass over values that only puts in references. -/
def Inserts (names : List Text) : Pass → Prop
  | values f => ∀ property v, Insertions names v (f property v)
  | text _ => False

/-- What a pass makes of a value, as it is read again. -/
def apply : Pass → Text → Text → Text
  | values f, property, v => Block.valueOf (' ' :: f property v)
  | text _, _, v => v

def applyAll (passes : List Pass) (property v : Text) : Text :=
  passes.foldl (fun v p => p.apply property v) v

theorem applyAll_append :
    applyAll (passes ++ others) property v = applyAll others property (applyAll passes property v) :=
  List.foldl_append

section Raw

variable (hr : ∀ name ∈ names, Fits (reference name))
include hr

theorem Inserts.raw_run (h : p.Inserts names) (t : Text) : Declaration.raw (p.run t) =
    (Declaration.raw t).map fun d => { d with value := p.apply d.property d.value } := by
  cases p with
  | values f => exact Declaration.raw_mapValues (fun _ => f) t fun d hd =>
      (h _ _).fits hr (Declaration.infix_of_mem_raw hd).2
  | text f => cases h

/-- The declarations after a pass over values. -/
theorem Inserts.parse_run {f : Text → Text → Text} (h : (values f).Inserts names) (t : Text) :
    Declaration.parse ((values f).run t) =
      (Declaration.raw t).map fun d => { d with value := trim (f d.property d.value) } :=
  Declaration.parse_mapValues_of_fits (fun _ => f) t fun _ hd =>
    (h _ _).fits hr (Declaration.infix_of_mem_raw hd).2

/-- After some passes each declaration has the value that the passes make of it. -/
theorem raw_runAll (h : ∀ p ∈ passes, p.Inserts names) (t : Text) :
    Declaration.raw (runAll passes t) =
      (Declaration.raw t).map fun d => { d with value := applyAll passes d.property d.value } := by
  induction passes generalizing t with
  | nil => exact (List.map_id _).symm
  | cons p passes ih =>
      rw [runAll_cons, ih (fun q hq => h q (by simp [hq])), (h p (by simp)).raw_run hr, List.map_map]
      rfl

theorem parse_runAll (h : ∀ p ∈ passes, p.Inserts names) (t : Text) :
    Declaration.parse (runAll passes t) = (Declaration.raw t).map fun d =>
      { d with value := trim (applyAll passes d.property d.value) } := by
  rw [Declaration.parse_eq_map_raw, raw_runAll hr h, List.map_map]
  rfl

theorem sameFrame_runAll (h : ∀ p ∈ passes, p.Inserts names) (t : Text) :
    SameFrame (runAll passes t) t := by
  induction passes generalizing t with
  | nil => exact .refl t
  | cons p passes ih =>
      refine (ih (fun q hq => h q (by simp [hq])) (p.run t)).trans ?_
      have inserts := h p (by simp)
      cases p with
      | values f => exact .mapValues _ fun d hd =>
          (inserts _ _).fits hr (Declaration.infix_of_mem_raw hd).2
      | text f => cases inserts

end Raw

/-- A pass that leaves the values of a property. -/
def Leaves (property : Text) : Pass → Prop
  | values f => ∀ v, f property v = v
  | text _ => False

theorem Leaves.apply_eq (h : p.Leaves property) (hv : Settled v) : p.apply property v = v := by
  cases p with
  | values f => rwa [apply, h v]
  | text f => rfl

theorem settled_apply (hv : Settled v) : Settled (p.apply property v) := by
  cases p with
  | values f => exact settled_valueOf (by simp)
  | text f => exact hv

theorem settled_applyAll (hv : Settled v) : Settled (applyAll passes property v) := by
  induction passes generalizing v with
  | nil => exact hv
  | cons p passes ih => exact ih (settled_apply hv)

theorem applyAll_of_fixed (h : ∀ p ∈ passes, p.apply property v = v) :
    applyAll passes property v = v := by
  induction passes with
  | nil => rfl
  | cons p passes ih =>
      change applyAll passes property (p.apply property v) = v
      rw [h p (by simp)]
      exact ih fun q hq => h q (by simp [hq])

theorem applyAll_of_leaves (h : ∀ p ∈ passes, p.Leaves property) (hv : Settled v) :
    applyAll passes property v = v :=
  applyAll_of_fixed fun p hp => (h p hp).apply_eq hv

/-- Passes that leave a property come to nothing before the one that is run. -/
theorem applyAll_passesIf_append {condition : Bool} (hv : Settled v)
    (h : ∀ q ∈ passes, q.Leaves property) (run : condition) :
    applyAll (passes ++ (TokenTables.passesIf condition p ++ others)) property v =
      applyAll others property (p.apply property v) := by
  have one : TokenTables.passesIf condition p = [p] := if_pos run
  rw [applyAll_append, applyAll_of_leaves h hv, one]
  rfl

end Pass

namespace TokenTables

/-- The names of all tokens but those for colors. -/
def tableNames (tokens : TokenTables) : List Text :=
  Category.all.flatMap fun c => (tokens.table c).values

theorem mem_tableNames (tokens : TokenTables) (c : Category) :
    ∀ e ∈ (tokens.table c).entries, e.2 ∈ tokens.tableNames := fun _ he =>
  List.mem_flatMap.2 ⟨c, by cases c <;> decide, List.mem_map_of_mem he⟩

theorem forall_mem_tableNames {tokens : TokenTables} {P : Text → Prop}
    (h : ∀ c, ∀ e ∈ (tokens.table c).entries, P e.2) : ∀ name ∈ tokens.tableNames, P name := by
  intro name hname
  obtain ⟨c, -, hname⟩ := List.mem_flatMap.1 hname
  obtain ⟨e, he, rfl⟩ := List.mem_map.1 hname
  exact h c e he

/-- The passes that compare whole values, which are run before the pass for colors. -/
def wholePasses (tokens : TokenTables) (features : List Feature) : List Pass :=
  passesIf (tokens.enables features .shadows [.shadows]) tokens.shadowPass ++
    passesIf (tokens.enables features .radius [.radii]) tokens.radiusPass

section Passes

variable {tokens : TokenTables} {P : Pass → Prop}

theorem forall_mem_passesIf {condition : Bool} {p : Pass} (h : P p) :
    ∀ q ∈ passesIf condition p, P q := by
  intro q hq
  rwa [eq_of_mem_passesIf hq]

theorem forall_mem_wholePasses (shadow : P tokens.shadowPass) (radius : P tokens.radiusPass)
    (features : List Feature) : ∀ p ∈ tokens.wholePasses features, P p :=
  List.forall_mem_append.2 ⟨forall_mem_passesIf shadow, forall_mem_passesIf radius⟩

theorem forall_mem_latePasses (spacing : P tokens.spacingPass) (border : P tokens.borderPass)
    (motion : P tokens.motionPass) (features : List Feature) :
    ∀ p ∈ tokens.latePasses features, P p :=
  List.forall_mem_append.2 ⟨List.forall_mem_append.2
    ⟨forall_mem_passesIf spacing, forall_mem_passesIf border⟩, forall_mem_passesIf motion⟩

theorem forall_mem_laterPasses {weights : List (Text × Template)}
    (typography : P (.values (typographyValue weights tokens))) (spacing : P tokens.spacingPass)
    (border : P tokens.borderPass) (motion : P tokens.motionPass) (features : List Feature) :
    ∀ p ∈ laterPasses weights tokens features, P p :=
  List.forall_mem_append.2
    ⟨forall_mem_passesIf typography, forall_mem_latePasses spacing border motion features⟩

end Passes

variable {names : List Text}

theorem leaves_onFamily {family : Text → Bool} {f : Text → Text} {property : Text}
    (h : family property = false) : (Pass.values (onFamily family f)).Leaves property := by
  intro v
  rw [onFamily, h]
  rfl

theorem inserts_onFamily {family : Text → Bool} {f : Text → Text}
    (hf : ∀ v, Insertions names v (f v)) : (Pass.values (onFamily family f)).Inserts names := by
  intro property v
  rw [onFamily]
  split
  · exact hf v
  · exact .refl v

section Names

variable {tokens : TokenTables} (ht : ∀ c, ∀ e ∈ (tokens.table c).entries, e.2 ∈ names)
include ht

theorem inserts_wholePasses (features : List Feature) :
    ∀ p ∈ tokens.wholePasses features, p.Inserts names := by
  apply forall_mem_wholePasses
  · exact inserts_onFamily fun v => .replaceWhole (ht _) _ v
  · exact inserts_onFamily fun v => .replaceWhole (ht _) _ v

theorem inserts_laterPasses (features : List Feature) :
    ∀ p ∈ laterPasses (FontShorthand.plainTemplates tokens) tokens features, p.Inserts names := by
  have lone (c : Category) (v : Text) :
      Insertions names v ((tokens.table c).substituteLone .exact v) :=
    .substituteLone (ht c) .exact v
  apply forall_mem_laterPasses
  · exact insertions_typographyValue ht
  · exact inserts_onFamily (lone _)
  · exact inserts_onFamily (lone _)
  · exact inserts_onFamily fun v => (lone .durations v).trans (lone .easings _)

end Names

end TokenTables

end DesignTokens
