import DesignTokens.Proofs.FontReferences
import DesignTokens.Proofs.SheetPasses
import Mathlib

/-!
The passes over values put in references and leave the rest. Each function that a pass maps is taken
apart into steps that copy text and put in references (`Inserted`, `Insertions`). So what it makes of
a value ends neither its entry nor its rule if the value does not, and has no reference but those of
the value and those to tokens (`Value.Change`).
-/
namespace DesignTokens

open Text

/-- A text with references, or with blanks between other characters, in the place of some of its
parts. -/
inductive Inserted (names : List Text) : Text → Text → Prop
  | nil : Inserted names [] []
  | char (c : Char) {t u : Text} (h : Inserted names t u) : Inserted names (c :: t) (c :: u)
  | token (part : Text) {name t u : Text} (hname : name ∈ names) (h : Inserted names t u) :
      Inserted names (part ++ t) (reference name ++ u)
  | blank (part : Text) {c : Char} {t u : Text} (hc : isBlank c = false)
      (h : Inserted names t (c :: u)) : Inserted names (part ++ t) (' ' :: c :: u)

/-- References are put in step by step, also into what the steps before have put in. -/
def Insertions (names : List Text) : Text → Text → Prop := Relation.ReflTransGen (Inserted names)

/-- Text without parentheses and spaces, as all properties are. -/
structure Property.Plain (p : Text) : Prop where
  opening : '(' ∉ p
  closing : ')' ∉ p
  blank : ' ' ∉ p

/-- A change of a value that the passes can make. -/
structure Value.Change (names : List Text) (v w : Text) : Prop where
  fits : Fits v → Fits w
  refers : ∀ p, p ∉ names → Property.Plain p → reference p <:+: w → reference p <:+: v

variable {names : List Text}

namespace Inserted

variable {t t' u u' v name : Text}

theorem append (h : Inserted names t u) (h' : Inserted names t' u') :
    Inserted names (t ++ t') (u ++ u') := by
  induction h with
  | nil => exact h'
  | char c h ih => exact .char c ih
  | token part hname h ih =>
      rw [List.append_assoc, List.append_assoc]
      exact .token part hname ih
  | blank part hc h ih =>
      rw [List.append_assoc]
      exact .blank part hc ih

theorem refl (t : Text) : Inserted names t t := by
  induction t with
  | nil => exact .nil
  | cons c t ih => exact .char c ih

theorem copy (front : Text) (h : Inserted names t u) : Inserted names (front ++ t) (front ++ u) :=
  (refl front).append h

theorem whole (t : Text) (hname : name ∈ names) : Inserted names t (reference name) := by
  have all : Inserted names (t ++ []) (reference name ++ []) := .token t hname .nil
  rwa [List.append_nil, List.append_nil] at all

section Functions

variable (hname : name ∈ names)
include hname

theorem mapTokens (r : Recognizer) (t : Text) :
    Inserted names t (mapTokens r (fun _ => reference name) t) := by
  have all (ps : List Piece) : Inserted names (ps.flatMap Piece.text)
      (ps.flatMap (Piece.mapToken fun _ => reference name)) := by
    induction ps with
    | nil => exact .nil
    | cons piece ps ih =>
        cases piece with
        | plain c => exact .char c ih
        | token part => exact .token part hname ih
  have text := all (pieces r t)
  rwa [pieces_text] at text

theorem replaceAll (old t : Text) : Inserted names t (replaceAll old (reference name) t) := by
  rw [Text.replaceAll]
  split
  · induction t with
    | nil => exact .whole [] hname
    | cons c t ih =>
        rw [List.flatMap_cons, List.append_assoc, List.append_assoc]
        exact .token [] hname (.char c ih)
  · exact mapTokens hname _ t

theorem insertAlone (before : Option Char) (t : Text) :
    Inserted names t (insertAlone (reference name) before t) := by
  induction t generalizing before with
  | nil =>
      rw [Text.insertAlone, List.append_nil]
      split
      · exact .whole [] hname
      · exact .nil
  | cons c t ih =>
      rw [Text.insertAlone]
      split
      · exact .token [] hname (.char c (ih _))
      · exact .char c (ih _)

theorem replaceLone (spelling : Spelling) (literal t : Text) :
    Inserted names t (replaceLone spelling literal (reference name) t) := by
  rw [Text.replaceLone]
  split
  · exact insertAlone hname none t
  · exact mapTokens hname _ t

end Functions

theorem mem_cases (h : Inserted names t u) {c : Char} (hc : c ∈ u) :
    c ∈ t ∨ c = ' ' ∨ ∃ name ∈ names, c ∈ reference name := by
  induction h with
  | nil => cases hc
  | char d h ih =>
      rcases List.mem_cons.1 hc with rfl | hc
      · exact .inl (by simp)
      · exact (ih hc).imp_left (List.mem_cons_of_mem d)
  | @token part name t u hname h ih =>
      rcases List.mem_append.1 hc with new | hc
      · exact .inr (.inr ⟨name, hname, new⟩)
      · exact (ih hc).imp_left (List.mem_append_right part)
  | blank part _ h ih =>
      rcases List.mem_cons.1 hc with rfl | hc
      · exact .inr (.inl rfl)
      · exact (ih hc).imp_left (List.mem_append_right part)

theorem fits (hr : ∀ name ∈ names, Value.Fits (reference name)) (h : Inserted names t u)
    (ht : Value.Fits t) : Value.Fits u := by
  constructor
  · intro hu
    rcases h.mem_cases hu with old | blank | ⟨name, hname, new⟩
    · exact ht.entry_open old
    · cases blank
    · exact (hr name hname).entry_open new
  · intro hu
    rcases h.mem_cases hu with old | blank | ⟨name, hname, new⟩
    · exact ht.rule_open old
    · cases blank
    · exact (hr name hname).rule_open new

section Change

variable (hn : ∀ name ∈ names, TokenName.Valid name)
include hn

omit hn in
theorem prefix_of_prefix {q : Text} (hq : Apart q) (hb : ' ' ∉ q) (h : Inserted names t u)
    (start : q <+: u) : q <+: t := by
  induction h generalizing q with
  | nil => exact start
  | char c h ih =>
      cases q with
      | nil => exact List.nil_prefix
      | cons d q =>
          obtain ⟨rfl, tail⟩ := List.cons_prefix_cons.1 start
          have apart : Apart q := fun s hs suffix => hq s hs (suffix.trans (List.suffix_cons d q))
          exact List.cons_prefix_cons.2 ⟨rfl, ih apart (fun hc => hb (by simp [hc])) tail⟩
  | token part hname h ih =>
      cases q with
      | nil => exact List.nil_prefix
      | cons d q =>
          have whole := hq (d :: q) (by simp) (List.suffix_refl _)
          rw [reference_append] at start
          rcases List.prefix_or_prefix_of_prefix start (List.prefix_append opening _) with h | h
          · exact absurd h whole.1
          · exact absurd h whole.2
  | blank part _ h ih =>
      cases q with
      | nil => exact List.nil_prefix
      | cons d q =>
          obtain ⟨rfl, -⟩ := List.cons_prefix_cons.1 start
          simp at hb

/-- A reference that is not put in was there before. -/
theorem infix_of_infix {p : Text} (hp : p ∉ names) (plain : Property.Plain p)
    (h : Inserted names t u) (inside : reference p <:+: u) : reference p <:+: t := by
  have starts := opening_prefix_reference p
  induction h with
  | nil => exact inside
  | char c h ih =>
      rcases List.infix_cons_iff.1 inside with start | later
      · change 'v' :: ('a' :: 'r' :: '(' :: (p ++ [')'])) <+: _ at start
        obtain ⟨rfl, tail⟩ := List.cons_prefix_cons.1 start
        have before := h.prefix_of_prefix (.of_reference plain.opening) (by simp [plain.blank])
          tail
        exact List.IsPrefix.isInfix (List.cons_prefix_cons.2 ⟨rfl, before⟩)
      · exact (ih later).trans (List.suffix_cons c _).isInfix
  | @token part name t u hname h ih =>
      have bracket : '(' ∉ name := notMem_name hn hname rfl
      have close : ')' ∉ name := notMem_name hn hname rfl
      change reference p <:+: 'v' :: ('a' :: 'r' :: '(' :: (name ++ [')']) ++ u) at inside
      rcases List.infix_cons_iff.1 inside with ⟨rest, same⟩ | later
      · have cuts : p ++ ')' :: rest = name ++ ')' :: u := by simpa [reference] using same
        have first := congrArg (fun t => (cut ')' t).1) cuts
        simp only [cut_append_cons plain.closing, cut_append_cons close] at first
        exact absurd (first ▸ hname) hp
      · have before := ih (Apart.infix_of_append (.of_reference bracket) starts later)
        exact before.trans (List.suffix_append part t).isInfix
  | @blank part c t u _ h ih =>
      rcases List.infix_cons_iff.1 inside with start | later
      · cases (List.cons_prefix_cons.1 start).1
      · exact (ih later).trans (List.suffix_append part t).isInfix

end Change

end Inserted

theorem fits_reference (hn : ∀ name ∈ names, TokenName.Valid name) :
    ∀ name ∈ names, Value.Fits (reference name) :=
  fun _ hname => ⟨notMem_reference hn hname rfl, notMem_reference hn hname rfl⟩

namespace Insertions

variable {u v w name : Text}

theorem refl (v : Text) : Insertions names v v := Relation.ReflTransGen.refl

theorem trans (h : Insertions names u v) (h' : Insertions names v w) : Insertions names u w :=
  Relation.ReflTransGen.trans h h'

theorem ofInserted (h : Inserted names v w) : Insertions names v w := .single h

theorem foldl {α : Type} {items : List α} {f : Text → α → Text}
    (h : ∀ a ∈ items, ∀ v, Insertions names v (f v a)) (v : Text) :
    Insertions names v (items.foldl f v) := by
  induction items generalizing v with
  | nil => exact .refl v
  | cons a items ih =>
      exact (h a (by simp) v).trans (ih (fun b hb => h b (by simp [hb])) (f v a))

/-- What every step keeps is kept. -/
theorem lift {P : Text → Prop} (step : ∀ t u, Inserted names t u → P t → P u)
    (h : Insertions names v w) (hv : P v) : P w := by
  induction h with
  | refl => exact hv
  | tail _ last ih => exact step _ _ last ih

theorem fits (hr : ∀ name ∈ names, Value.Fits (reference name)) (h : Insertions names v w)
    (hv : Value.Fits v) : Value.Fits w := h.lift (fun _ _ step => step.fits hr) hv

theorem change (hn : ∀ name ∈ names, TokenName.Valid name) (h : Insertions names v w) :
    Value.Change names v w := by
  refine ⟨h.fits (fits_reference hn), fun p hp plain => ?_⟩
  exact not_imp_not.1 (h.lift fun t u step => mt (step.infix_of_infix hn hp plain))

section Tables

variable {m : TokenMap} (hm : ∀ e ∈ m.entries, e.2 ∈ names)
include hm

theorem exists_of_reference? {literal new : Text} (h : m.reference? literal = some new) :
    ∃ name ∈ names, new = reference name := by
  obtain ⟨name, hget, rfl⟩ := Option.map_eq_some_iff.1 h
  exact ⟨name, hm _ (OrderedMap.mem_of_get?_eq_some (Option.filter_eq_some_iff.1 hget).1), rfl⟩

theorem inserted_replaceWhole (normal : Text → Text) (v : Text) :
    Inserted names v (m.replaceWhole normal v) := by
  rw [TokenMap.replaceWhole]
  cases h : m.reference? (normal v) with
  | none => exact .refl v
  | some new =>
      obtain ⟨name, hname, rfl⟩ := exists_of_reference? hm h
      exact .whole v hname

theorem replaceWhole (normal : Text → Text) (v : Text) :
    Insertions names v (m.replaceWhole normal v) := .ofInserted (inserted_replaceWhole hm normal v)

theorem substituteLone (spelling : Spelling) (v : Text) :
    Insertions names v (m.substituteLone spelling v) :=
  foldl (fun e he v => .ofInserted (.replaceLone (hm e (TokenMap.mem_byLength.1 he))
    spelling e.1 v)) v

end Tables

end Insertions

namespace FontShorthand

variable {t name : Text}

theorem inserted_replaceWord (word : Text) (hname : name ∈ names) (t : Text) :
    Inserted names t (replaceWord word (.plain (reference name)) none t) := by
  rcases exists_of_replaceWord word (reference name) t with same | ⟨front, rest, rfl, first⟩
  · rw [same]
    exact .refl t
  · rw [replaceWord_of_firstAt first]
    have token := Inserted.token (rest.take word.length) hname (.refl (rest.drop word.length))
    rw [List.take_append_drop] at token
    exact .copy front token

section Sizes

variable {lineHeights : TokenMap} (hl : ∀ e ∈ lineHeights.entries, e.2 ∈ names)
  (hname : name ∈ names)
include hl hname

omit hl hname in
/-- The line height after a size, or its reference, does not begin with a blank. -/
theorem exists_first {t blanks blanks' height tail : Text}
    (cuts : CutsLineHeight t blanks blanks' height tail) :
    ∃ c rest, isBlank c = false ∧
      (lineHeights.reference? height).getD height ++ tail = c :: rest := by
  cases h : lineHeights.reference? height with
  | none =>
      obtain ⟨c, rest, rfl⟩ := List.exists_cons_of_ne_nil cuts.ne_nil
      have part := cuts.parts c List.mem_cons_self
      refine ⟨c, rest ++ tail, ?_, rfl⟩
      by_contra blank
      simp [isLineHeightPart, blank] at part
  | some new =>
      obtain ⟨name, -, rfl⟩ := Option.map_eq_some_iff.1 h
      exact ⟨'v', _, rfl, rfl⟩

theorem inserted_sizeText (literal t : Text) :
    Inserted names (literal ++ t) (sizeText lineHeights name t) := by
  rw [sizeText]
  split
  · rename_i height tail h
    obtain ⟨blanks, blanks', cuts⟩ := exists_of_lineHeight? h
    have value : Inserted names height ((lineHeights.reference? height).getD height) :=
      Insertions.inserted_replaceWhole hl id height
    obtain ⟨c, rest, hc, next⟩ := exists_first cuts
    have line := value.append (.refl tail)
    rw [next] at line
    have sign := Inserted.blank blanks rfl (.char '/' (.blank blanks' hc line))
    rw [cuts.text, List.append_assoc, List.append_assoc, next]
    simpa using Inserted.token literal hname sign
  · exact .token literal hname (.refl t)

theorem inserted_afterLiteral {literal t tail : Text} (h : afterLiteral? literal t = some tail) :
    Inserted names t (sizeText lineHeights name tail) := by
  rw [afterLiteral?] at h
  split at h
  · cases h
    have sized := inserted_sizeText hl hname (t.take literal.length) (t.drop literal.length)
    rwa [List.take_append_drop] at sized
  · cases h

theorem inserted_replaceSize (literal t : Text) :
    Inserted names t (replaceSize lineHeights literal name t) := by
  rw [replaceSize]
  split
  · rename_i tail h
    exact inserted_afterLiteral hl hname h
  · obtain same | ⟨a, c, rest, tail, -, rfl, h, new⟩ :=
      exists_of_replaceInnerSize lineHeights literal name t
    · rw [same]
      exact .refl t
    · rw [new]
      exact .copy a (.char c (inserted_afterLiteral hl hname h))

end Sizes

theorem inserted_replaceFamily {families : TokenMap} (hf : ∀ e ∈ families.entries, e.2 ∈ names)
    (family t : Text) : Inserted names t (replaceFamily families family t) := by
  obtain same | ⟨front, rest, name, entry, rfl, -, text⟩ := exists_of_replaceFamily families family t
  · rw [same]
    exact .refl t
  · rw [text, List.append_assoc, List.append_assoc]
    exact .copy front (.token family (hf _ entry) (.refl rest))

end FontShorthand

namespace TokenTables

open FontShorthand

variable {tokens : TokenTables} (ht : ∀ c, ∀ e ∈ (tokens.table c).entries, e.2 ∈ names)
include ht

theorem insertions_substituteWith (v : Text) :
    Insertions names v (substituteWith (plainTemplates tokens) tokens v) := by
  rw [substituteWith_eq, substituteOthers]
  have weights : Insertions names v (weighted (tokens.table .fontWeights).entries v) :=
    .foldl (fun e he v => .ofInserted (inserted_replaceWord e.1 (ht _ e he) v)) v
  have sizes := weights.trans <|
    .foldl (f := fun v e => replaceSize (tokens.table .lineHeights) e.1 e.2 v)
      (fun e he v => .ofInserted (inserted_replaceSize (ht _) (ht .fontSizes e he) e.1 v)) _
  cases family? v with
  | none => exact sizes
  | some family => exact sizes.trans (.ofInserted (inserted_replaceFamily (ht _) family _))

theorem insertions_typographyValue (property v : Text) :
    Insertions names v (tokens.typographyValue (plainTemplates tokens) property v) := by
  rw [typographyValue]
  split_ifs
  · exact .replaceWhole (ht _) _ v
  · exact insertions_substituteWith ht v
  · split
    · exact .substituteLone (ht _) _ v
    · exact .refl v

end TokenTables

end DesignTokens
