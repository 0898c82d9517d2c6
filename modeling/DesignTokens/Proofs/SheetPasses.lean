import DesignTokens.Proofs.ReferencedSheets
import DesignTokens.Reference.Sheet

/-!
The passes that put references into a stylesheet, one after another. A pass goes over each value
with its property, or over the whole text; it keeps the references of what it goes over. Passes
that keep the references of values keep those of the sheet.
-/
namespace DesignTokens

/-- A pass over the values of a stylesheet, which are changed by a function of property and value,
or over its text. -/
inductive Pass where
  | values (f : Text → Text → Text)
  | text (f : Text → Text)

namespace Pass

def run : Pass → Text → Text
  | values f, t => Sheet.mapValues (fun _ => f) t
  | text f, t => f t

def runAll (passes : List Pass) (t : Text) : Text := passes.foldl (fun t p => p.run t) t

/-- A pass over a sheet keeps the references of everything that it goes over. -/
def Keeps (names : List Text) : Pass → Text → Prop
  | values f, t => ∀ d ∈ Declaration.raw t, DesignTokens.Keeps names d.value (f d.property d.value)
  | text f, t => DesignTokens.Keeps names t (f t)

/-- Every pass keeps the references of the sheet that the passes before it have made. -/
def AllKeep (names : List Text) : List Pass → Text → Prop
  | [], _ => True
  | p :: passes, t => p.Keeps names t ∧ AllKeep names passes (p.run t)

theorem runAll_cons (p : Pass) (passes : List Pass) (t : Text) :
    runAll (p :: passes) t = runAll passes (p.run t) := rfl

theorem runAll_append (passes others : List Pass) (t : Text) :
    runAll (passes ++ others) t = runAll others (runAll passes t) := List.foldl_append

theorem allKeep_append {names : List Text} {passes others : List Pass} {t : Text} :
    AllKeep names (passes ++ others) t ↔
      AllKeep names passes t ∧ AllKeep names others (runAll passes t) := by
  induction passes generalizing t with
  | nil => simp [AllKeep, runAll]
  | cons p passes ih =>
      have later := @ih (p.run t)
      simp only [AllKeep, List.cons_append, later, and_assoc]
      rfl

variable {names : List Text} (hn : ∀ name ∈ names, TokenName.Valid name)
include hn

/-- A pass that keeps the references of what it goes over keeps those of the sheet. -/
theorem Keeps.run {p : Pass} {t : Text} (h : p.Keeps names t) (ht : Intact names t) :
    DesignTokens.Keeps names t (p.run t) := by
  cases p with
  | values f => exact Sheet.keeps_mapValues hn _ ht h
  | text f => exact h

theorem AllKeep.runAll {passes : List Pass} {t : Text} (h : AllKeep names passes t)
    (ht : Intact names t) : DesignTokens.Keeps names t (Pass.runAll passes t) := by
  induction passes generalizing t with
  | nil => exact DesignTokens.Keeps.refl ht
  | cons p passes ih =>
      have first := h.1.run hn ht
      exact first.trans (ih h.2 first.intact)

/-- Passes that keep the references of every intact sheet keep them one after another. -/
theorem allKeep_of_forall {passes : List Pass} (h : ∀ p ∈ passes, ∀ t, Intact names t →
    p.Keeps names t) {t : Text} (ht : Intact names t) : AllKeep names passes t := by
  induction passes generalizing t with
  | nil => trivial
  | cons p passes ih =>
      have first := h p (by simp) t ht
      exact ⟨first, ih (fun q hq => h q (by simp [hq])) (first.run hn ht).intact⟩

/-- A pass over values keeps the references of an intact sheet if it keeps those of every intact
value. -/
theorem keeps_values {f : Text → Text → Text}
    (h : ∀ property value, Intact names value → DesignTokens.Keeps names value (f property value))
    {t : Text} (ht : Intact names t) : (values f).Keeps names t :=
  fun d hd => h _ _ (Sheet.intact_of_mem_raw hn ht d hd)

end Pass

namespace TokenTables

def passesIf (condition : Bool) (p : Pass) : List Pass := if condition then [p] else []

theorem eq_of_mem_passesIf {condition : Bool} {p q : Pass} (h : q ∈ passesIf condition p) :
    q = p := by
  cases condition with
  | true => exact List.mem_singleton.1 h
  | false => cases h

theorem runAll_passesIf (condition : Bool) (p : Pass) (t : Text) :
    Pass.runAll (passesIf condition p) t = passIf condition p.run t := by
  cases condition <;> rfl

def onFamily (family : Text → Bool) (f : Text → Text) (property value : Text) : Text :=
  if family property then f value else value

def shadowPass (tokens : TokenTables) : Pass :=
  .values (onFamily (· = "box-shadow".toList) ((tokens.table .shadows).replaceWhole Value.shadow))

def radiusPass (tokens : TokenTables) : Pass :=
  .values (onFamily (· = "border-radius".toList) ((tokens.table .radii).replaceWhole Value.radius))

def colorPass (tokens : TokenTables) : Pass := .text tokens.colors.substituteAll

def spacingPass (tokens : TokenTables) : Pass :=
  .values (onFamily Property.isSpacing ((tokens.table .spacing).substituteLone .exact))

def borderPass (tokens : TokenTables) : Pass :=
  .values (onFamily Property.isBorder ((tokens.table .borderWidths).substituteLone .exact))

def motionPass (tokens : TokenTables) : Pass :=
  .values (onFamily Property.isMotion fun value =>
    (tokens.table .easings).substituteLone .exact
      ((tokens.table .durations).substituteLone .exact value))

/-- Is a feature enabled that has tokens in one of some categories? -/
def enables (tokens : TokenTables) (features : List Feature) (f : Feature)
    (categories : List Category) : Bool :=
  features.contains f && categories.any fun c => !(tokens.table c).isEmpty

def earlyPasses (tokens : TokenTables) (features : List Feature) : List Pass :=
  passesIf (tokens.enables features .shadows [.shadows]) tokens.shadowPass ++
    passesIf (tokens.enables features .radius [.radii]) tokens.radiusPass ++
    passesIf (features.contains .colors && !tokens.colors.isEmpty) tokens.colorPass

def latePasses (tokens : TokenTables) (features : List Feature) : List Pass :=
  passesIf (tokens.enables features .spacing [.spacing]) tokens.spacingPass ++
    passesIf (tokens.enables features .borders [.borderWidths]) tokens.borderPass ++
    passesIf (tokens.enables features .motion [.durations, .easings]) tokens.motionPass

/-- The passes after the one for colors. -/
def laterPasses (weights : List (Text × Template)) (tokens : TokenTables) (features : List Feature) :
    List Pass :=
  passesIf (features.contains .typography) (.values (typographyValue weights tokens)) ++
    tokens.latePasses features

/-- Where the templates of the weights can be read, a stylesheet is rewritten by these passes. -/
theorem substitute_eq_runAll {tokens : TokenTables} {weights : List (Text × Template)}
    (hw : FontShorthand.weightTemplates tokens = .ok weights) (features : List Feature) (t : Text) :
    tokens.substitute features t = .ok (Pass.runAll (tokens.earlyPasses features ++
      laterPasses weights tokens features) t) := by
  have typography (t : Text) : tokens.substituteTypography t =
      .ok ((Pass.values (typographyValue weights tokens)).run t) := by
    rw [substituteTypography, hw]
    rfl
  simp only [substitute, typography, earlyPasses, laterPasses, latePasses, Pass.runAll_append,
    runAll_passesIf]
  cases features.contains .typography <;> rfl

end TokenTables

end DesignTokens
