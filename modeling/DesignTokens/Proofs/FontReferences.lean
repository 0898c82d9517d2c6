import DesignTokens.Proofs.BrokenReferences
import DesignTokens.Reference.Sheet

/-!
References in a `font` value whose literals are ordinary. The weights come one after another, each
into what the ones before it have left; the value keeps its references if and only if no weight then
first occurs inside of one.
-/
namespace DesignTokens

open Text

/-- Typography with no literal that could be mistaken for a part of a reference, but for weights
that could be a part of a name. -/
structure TokenTables.Ordinary (tokens : TokenTables) : Prop where
  literals : ∀ c ∈ [Category.fontSizes, .lineHeights, .fontWeights, .letterSpacings],
    ∀ e ∈ (tokens.table c).entries, Unmistakable e.1
  weights : ∀ e ∈ (tokens.table .fontWeights).entries, ¬ isPrefixNoCase ['('] e.1
  families : ∀ e ∈ (tokens.table .fontFamilies).entries, ')' ∉ e.1

theorem TokenTables.Ordinary.plain_lineHeights {tokens : TokenTables} (h : tokens.Ordinary) :
    ∀ e ∈ (tokens.table .lineHeights).entries, ¬ opening <:+: e.1 :=
  fun e he => (h.literals .lineHeights (by simp) e he).plain

namespace FontShorthand

/-- A value with some weights as references. -/
def weighted (weights : List (Text × Text)) (value : Text) : Text :=
  weights.foldl (fun v e => replaceWord e.1 (Template.plain (reference e.2)) none v) value

/-- A weight that is found inside of a reference when its turn comes. -/
def Found (names : List Text) (weights : List (Text × Text)) (value : Text) : Prop :=
  ∃ done e later, weights = done ++ e :: later ∧ Lands names e.1 (weighted done value)

/-- A value with its sizes and its family as references. -/
def substituteOthers (tokens : TokenTables) (family : Option Text) (value : Text) : Text :=
  let sized := (tokens.table .fontSizes).entries.foldl
    (fun v e => replaceSize (tokens.table .lineHeights) e.1 e.2 v) value
  family.elim sized fun family => replaceFamily (tokens.table .fontFamilies) family sized

theorem substituteWith_eq (tokens : TokenTables) (value : Text) :
    substituteWith (plainTemplates tokens) tokens value = substituteOthers tokens (family? value)
      (weighted (tokens.table .fontWeights).entries value) := by
  rw [substituteWith, plainTemplates, List.foldl_map]
  rfl

variable {names : List Text} {t : Text}

theorem found_cons {e : Text × Text} {weights : List (Text × Text)} :
    Found names (e :: weights) t ↔
      Lands names e.1 t ∨ Found names weights (weighted [e] t) := by
  constructor
  · rintro ⟨done, e', later, he, lands⟩
    cases done with
    | nil =>
        obtain ⟨rfl, rfl⟩ := List.cons.inj he
        exact .inl lands
    | cons d done =>
        obtain ⟨rfl, rfl⟩ := List.cons.inj he
        exact .inr ⟨done, e', later, rfl, lands⟩
  · rintro (lands | ⟨done, e', later, rfl, lands⟩)
    · exact ⟨[], e, weights, rfl, lands⟩
    · exact ⟨e :: done, e', later, rfl, lands⟩

section Weights

variable (hn : ∀ name ∈ names, TokenName.Valid name) {weights : List (Text × Text)}
  (hw : ∀ e ∈ weights, e.2 ∈ names ∧ OrdinaryWeight e.1)
include hn hw

theorem keeps_weighted (hf : ¬ Found names weights t) (ht : Intact names t) :
    Keeps names t (weighted weights t) := by
  induction weights generalizing t with
  | nil => exact Keeps.refl ht
  | cons e weights ih =>
      rw [found_cons, not_or] at hf
      obtain ⟨hname, ordinary⟩ := hw e (by simp)
      have first := (rewrites_replaceWord hn ordinary.unopened hf.1 hname ht).keeps hn
      exact first.trans (ih (fun e he => hw e (by simp [he])) hf.2 first.intact)

theorem broken_weighted (h : Broken t) : Broken (weighted weights t) := by
  induction weights generalizing t with
  | nil => exact h
  | cons e weights ih =>
      obtain ⟨hname, ordinary⟩ := hw e (by simp)
      exact ih (fun e he => hw e (by simp [he])) (broken_replaceWord ordinary (hn _ hname).parts h)

theorem broken_of_found (h : Found names weights t) : Broken (weighted weights t) := by
  induction weights generalizing t with
  | nil =>
      obtain ⟨done, e, later, he, -⟩ := h
      simp at he
  | cons e weights ih =>
      obtain ⟨hname, ordinary⟩ := hw e (by simp)
      have others : ∀ e ∈ weights, e.2 ∈ names ∧ OrdinaryWeight e.1 := fun e he =>
        hw e (by simp [he])
      change Broken (weighted weights (weighted [e] t))
      rcases found_cons.1 h with lands | later
      · exact broken_weighted hn others (broken_of_lands hn ordinary (hn _ hname).parts lands)
      · exact ih others later

end Weights

section Tables

variable {tokens : TokenTables} (ordinary : tokens.Ordinary)
include ordinary

theorem broken_substituteOthers (family : Option Text) (h : Broken t) :
    Broken (substituteOthers tokens family t) := by
  have sized : Broken ((tokens.table .fontSizes).entries.foldl
      (fun v e => replaceSize (tokens.table .lineHeights) e.1 e.2 v) t) := by
    refine List.foldlRecOn _ _ h fun v hv e he => ?_
    exact broken_replaceSize ordinary.plain_lineHeights
      (ordinary.literals .fontSizes (by simp) e he) hv
  cases family with
  | none => exact sized
  | some family => exact broken_replaceFamily ordinary.families family sized

variable (hn : ∀ name ∈ names, TokenName.Valid name)
  (declared : ∀ c, ∀ e ∈ (tokens.table c).entries, e.2 ∈ names)
include hn declared

theorem keeps_substituteOthers (family : Option Text) (ht : Intact names t) :
    Keeps names t (substituteOthers tokens family t) := by
  have heights : ∀ e ∈ (tokens.table .lineHeights).entries, e.2 ∈ names ∧ ¬ opening <:+: e.1 :=
    fun e he => ⟨declared _ e he, ordinary.plain_lineHeights e he⟩
  have sized : Keeps names t ((tokens.table .fontSizes).entries.foldl
      (fun v e => replaceSize (tokens.table .lineHeights) e.1 e.2 v) t) := by
    refine keeps_foldl (fun e he t ht => ?_) ht
    exact keeps_replaceSize hn heights (ordinary.literals .fontSizes (by simp) e he)
      (declared _ e he) ht
  cases family with
  | none => exact sized
  | some family =>
      refine sized.trans (keeps_replaceFamily hn (fun e he => ?_) family sized.intact)
      exact ⟨declared _ e he, ordinary.families e he⟩

theorem keeps_substituteWith_iff (ht : Intact names t) :
    Keeps names t (substituteWith (plainTemplates tokens) tokens t) ↔
      ¬ Found names (tokens.table .fontWeights).entries t := by
  have weights : ∀ e ∈ (tokens.table .fontWeights).entries,
      e.2 ∈ names ∧ OrdinaryWeight e.1 := by
    intro e he
    have literal := ordinary.literals .fontWeights (by simp) e he
    exact ⟨declared _ e he, { literal with unbracketed := ordinary.weights e he }⟩
  rw [substituteWith_eq]
  constructor
  · intro kept found
    have broken := broken_substituteOthers ordinary (family? t) (broken_of_found hn weights found)
    exact broken.not_intact hn kept.intact
  · intro unfound
    have kept := keeps_weighted hn weights unfound ht
    exact kept.trans (keeps_substituteOthers ordinary hn declared (family? t) kept.intact)

end Tables

end FontShorthand

end DesignTokens
