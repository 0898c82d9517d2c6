import DesignTokens.Proofs.LiteralShapes
import DesignTokens.Proofs.OrderedMaps

/-!
Substitutions that keep the references of a text: of whole values, of literals that stand apart,
and of literals that stand alone.
-/
namespace DesignTokens

open Text

variable {names : List Text} (hn : ∀ name ∈ names, TokenName.Valid name)

theorem keeps_foldl {α : Type} {items : List α} {f : Text → α → Text}
    (h : ∀ a ∈ items, ∀ t, Intact names t → Keeps names t (f t a)) {t : Text}
    (ht : Intact names t) : Keeps names t (items.foldl f t) := by
  induction items generalizing t with
  | nil => exact Keeps.refl ht
  | cons a items ih =>
      have first := h a (by simp) t ht
      exact first.trans (ih (fun b hb => h b (by simp [hb])) first.intact)

section Colors

variable {name literal : Text} (hs : StartsColor literal) (bracket : '(' ∉ name)
  (sharp : '#' ∉ name)
include hs bracket sharp

/-- No part of a reference starts like a color. -/
theorem StartsColor.not_prefix_append {s : Text} (hne : s ≠ []) (hsuffix : s <:+ reference name)
    (rest : Text) : ¬ literal <+: s ++ rest := by
  intro hp
  have text : reference name = 'v' :: 'a' :: 'r' :: '(' :: (name ++ [')']) := by
    rw [← List.append_nil (reference name), reference_append]
  have last : s.getLast? = some ')' := by
    obtain ⟨front, whole⟩ := hsuffix
    rw [← List.getLast?_append_of_ne_nil front hne, whole, reference, List.getLast?_concat]
  rcases hs with start | ⟨head, hh, hhead⟩
  · cases s with
    | nil => cases last
    | cons c s =>
        obtain ⟨rfl, -⟩ := List.cons_prefix_cons.1 (start.trans hp)
        have inside := hsuffix.subset List.mem_cons_self
        simp [text, sharp] at inside
  · have heads : ∀ head ∈ Color.callHeads, ')' ∉ head ∧ '(' ∈ head ∧
        (head.take 2 = ['r', 'g'] ∨ head.take 2 = ['h', 's']) := by decide
    obtain ⟨closed, opened, starts⟩ := heads head hh
    have start : head <+: s := by
      rcases prefix_append_cases (hhead.trans hp) with short | ⟨d, q, -, rfl⟩
      · exact short
      · exact absurd (List.mem_append_left _ (List.mem_of_getLast? last)) closed
    have two := (List.take_prefix 2 head).trans start
    rw [text, List.suffix_cons_iff, List.suffix_cons_iff, List.suffix_cons_iff,
      List.suffix_cons_iff] at hsuffix
    rcases hsuffix with rfl | rfl | rfl | rfl | inside
    · rcases starts with h | h <;> simp [h] at two
    · rcases starts with h | h <;> simp [h] at two
    · rcases starts with h | h <;> simp [h] at two
    · rcases starts with h | h <;> simp [h] at two
    · have again := inside.subset (start.subset opened)
      simp [bracket] at again

/-- A color that occurs in a text after a reference occurs in the text. -/
theorem StartsColor.infix_of_append {t : Text} (h : literal <:+: reference name ++ t) :
    literal <:+: t :=
  infix_of_infix_append_of_forall
    (fun _ hne suffix => hs.not_prefix_append bracket sharp hne suffix t) h

end Colors

include hn

/-- No part of a reference can be taken for a literal that starts like a color. -/
theorem spares_color {literal : Text} (ha : Apart literal) (hs : StartsColor literal) :
    Spares names (literalToken literal) := by
  refine spares_literalToken ha fun name hname s rest hsuffix => ?_
  have ends : s ++ [')'] <:+ reference name := by
    obtain ⟨front, text⟩ := hsuffix
    refine ⟨'v' :: front, ?_⟩
    rw [← List.append_nil (reference name), reference_append, List.cons_append,
      ← List.append_assoc, text]
    rfl
  have valid := hn name hname
  have apart := hs.not_prefix_append (valid.notMem rfl) (valid.notMem rfl) (by simp) ends rest
  rwa [List.append_assoc] at apart

theorem keeps_substituteAll {m : TokenMap}
    (hm : ∀ e ∈ m.entries, e.2 ∈ names ∧ Apart e.1 ∧ StartsColor e.1) {t : Text}
    (ht : Intact names t) : Keeps names t (m.substituteAll t) := by
  refine keeps_foldl (fun e he t ht => ?_) ht
  obtain ⟨hname, apart, starts⟩ := hm e (TokenMap.mem_byLength.1 he)
  have whole : replaceAll e.1 (reference e.2) t =
      mapTokens (literalToken e.1) (fun _ => reference e.2) t :=
    if_neg (by simpa using starts.ne_nil)
  change Keeps names t (replaceAll e.1 (reference e.2) t)
  rw [whole]
  exact ((spares_color hn apart starts).rewrites_mapTokens hn hname ht).keeps hn

theorem keeps_substituteLone {spelling : Spelling} {m : TokenMap}
    (hm : ∀ e ∈ m.entries, e.2 ∈ names ∧ e.1 ≠ [] ∧ Spares names (loneToken spelling e.1))
    {t : Text} (ht : Intact names t) : Keeps names t (m.substituteLone spelling t) := by
  refine keeps_foldl (fun e he t ht => ?_) ht
  obtain ⟨hname, hne, spares⟩ := hm e (TokenMap.mem_byLength.1 he)
  have whole : replaceLone spelling e.1 (reference e.2) t =
      mapTokens (loneToken spelling e.1) (fun _ => reference e.2) t := if_neg (by simpa using hne)
  change Keeps names t (replaceLone spelling e.1 (reference e.2) t)
  rw [whole]
  exact (spares.rewrites_mapTokens hn hname ht).keeps hn

theorem keeps_replaceWhole {m : TokenMap} {f : Text → Text}
    (hm : ∀ e ∈ m.entries, e.2 ∈ names ∧ ¬ opening <:+: e.1)
    (hf : ∀ v, opening <:+: v → opening <:+: f v) {v : Text} (hv : Intact names v) :
    Keeps names v (m.replaceWhole f v) := by
  rw [TokenMap.replaceWhole, TokenMap.reference?]
  cases hname : (m.get? (f v)).filter (!·.isEmpty) with
  | none => exact Keeps.refl hv
  | some name =>
      have entry := OrderedMap.mem_of_get?_eq_some (Option.filter_eq_some_iff.1 hname).1
      obtain ⟨declared, plain⟩ := hm _ entry
      have empty : references names v = [] :=
        references_eq_nil_iff.2 fun h => plain (hf v h)
      have alone := references_reference_append hn declared []
      simp only [List.append_nil, references_nil] at alone
      constructor
      · simp [Intact, alone]
      · rw [empty]
        exact List.nil_sublist _

end DesignTokens
