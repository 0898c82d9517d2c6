import DesignTokens.Proofs.PlainTemplates
import DesignTokens.Proofs.ReferencedSizes

/-!
Weights of a `font` value. The first occurrence of a weight is replaced wherever it stands as a
word, and a `-` is no part of a word. So a weight can be found in the name of a reference; where it
first occurs outside of references, they all stay what they are.
-/
namespace DesignTokens

open Text

variable {names : List Text}

/-- A reference goes on across the place between two texts. -/
def Straddles (names : List Text) (front rest : Text) : Prop :=
  ∃ name ∈ names, ∃ p q, p ≠ [] ∧ q ≠ [] ∧ reference name = p ++ q ∧ p <:+ front ∧ q <+: rest

theorem Intact.of_append {a b : Text} (h : Intact names (a ++ b)) : Intact names b := by
  rw [intact_iff] at h ⊢
  rintro front rest rfl
  exact h (a ++ front) rest (by simp)

/-- What follows a place outside of references can be rewritten by itself. -/
theorem Rewrites.append (hn : ∀ name ∈ names, TokenName.Valid name) {front rest u : Text}
    (ht : Intact names (front ++ rest)) (hs : ¬ Straddles names front rest)
    (h : Rewrites names rest u) : Rewrites names (front ++ rest) (front ++ u) := by
  generalize he : front ++ rest = t at ht
  refine Intact.induction hn (P := fun t => ∀ front, front ++ rest = t →
    ¬ Straddles names front rest → Rewrites names t (front ++ u)) ?_ ?_ ?_ ht front he hs
  · intro front he _
    obtain ⟨rfl, rfl⟩ := List.append_eq_nil_iff.1 he
    exact h
  · intro c tail hc _ ih front he hs
    cases front with
    | nil =>
        obtain rfl : rest = c :: tail := he
        exact h
    | cons d front =>
        obtain ⟨rfl, rfl⟩ := List.cons.inj he
        refine .char hc (ih front rfl ?_)
        rintro ⟨name, hname, p, q, hp, hq, text, suffix, start⟩
        exact hs ⟨name, hname, p, q, hp, hq, text, suffix.trans (List.suffix_cons d front), start⟩
  · intro name tail hname _ ih front he hs
    rcases List.append_eq_append_iff.1 he with ⟨as, text, hrest⟩ | ⟨bs, rfl, htail⟩
    · cases front with
      | nil =>
          obtain rfl : rest = reference name ++ tail := he
          exact h
      | cons d front =>
          cases as with
          | nil =>
              obtain rfl : rest = tail := hrest
              rw [List.append_nil] at text
              rw [← text]
              exact .use hname h
          | cons e as =>
              refine absurd ⟨name, hname, d :: front, e :: as, by simp, by simp, text, ?_, ?_⟩ hs
              · exact List.suffix_refl _
              · exact ⟨tail, hrest.symm⟩
    · rw [List.append_assoc]
      refine .use hname (ih bs htail.symm ?_)
      rintro ⟨other, hother, p, q, hp, hq, text, suffix, start⟩
      refine hs ⟨other, hother, p, q, hp, hq, text, suffix.trans ?_, start⟩
      exact List.suffix_append _ _

namespace FontShorthand

variable {word new t : Text}

/-- Of two texts in a row the second one starts with the first occurrence of a word in both. -/
structure FirstAt (word front rest : Text) : Prop where
  starts : startsWithWord word front.getLast? rest
  first : ∀ a b, b ≠ [] → front = a ++ b → ¬ startsWithWord word a.getLast? (b ++ rest)

/-- The first occurrence of a word starts inside of a reference. -/
def Lands (names : List Text) (word t : Text) : Prop :=
  ∃ front rest, t = front ++ rest ∧ FirstAt word front rest ∧ Straddles names front rest

theorem replaceWord_cons {before : Option Char} {c : Char} {rest : Text}
    (h : ¬ startsWithWord word before (c :: rest)) :
    replaceWord word (Template.plain new) before (c :: rest) =
      c :: replaceWord word (Template.plain new) (some c) rest := by
  rw [replaceWord, if_neg h]

theorem replaceWord_of_startsWithWord {before : Option Char} (h : startsWithWord word before t) :
    replaceWord word (Template.plain new) before t = new ++ t.drop word.length := by
  rw [replaceWord.eq_def, if_pos h, List.splitAt_eq]
  simp [Template.fill_plain]

theorem replaceWord_append {before : Option Char} {s rest : Text}
    (h : ∀ a b, b ≠ [] → s = a ++ b → ¬ startsWithWord word (a.getLast?.or before) (b ++ rest)) :
    replaceWord word (Template.plain new) before (s ++ rest) =
      s ++ replaceWord word (Template.plain new) (s.getLast?.or before) rest := by
  induction s generalizing before with
  | nil => rfl
  | cons c s ih =>
      have first : ¬ startsWithWord word before (c :: (s ++ rest)) := h [] (c :: s) (by simp) rfl
      rw [List.cons_append, replaceWord_cons first, getLast?_cons_or, List.cons_append, ih]
      intro a b hne he
      rw [← getLast?_cons_or]
      exact h (c :: a) b hne (by simp [he])

theorem replaceWord_of_firstAt {front rest : Text} (h : FirstAt word front rest) :
    replaceWord word (Template.plain new) none (front ++ rest) =
      front ++ (new ++ rest.drop word.length) := by
  rw [replaceWord_append, Option.or_none, replaceWord_of_startsWithWord h.starts]
  intro a b hne he
  rw [Option.or_none]
  exact h.first a b hne he

theorem exists_firstAt {a b : Text} (h : startsWithWord word a.getLast? b) :
    ∃ front rest, a ++ b = front ++ rest ∧ FirstAt word front rest := by
  by_cases earlier : ∃ a' b', b' ≠ [] ∧ a = a' ++ b' ∧ startsWithWord word a'.getLast? (b' ++ b)
  · obtain ⟨a', b', hne, rfl, starts⟩ := earlier
    have shorter : a'.length < (a' ++ b').length := by
      have := List.length_pos_of_ne_nil hne
      simp
      omega
    obtain ⟨front, rest, text, first⟩ := exists_firstAt starts
    exact ⟨front, rest, by rw [List.append_assoc, text], first⟩
  · exact ⟨a, b, rfl, h, fun a' b' hne he starts => earlier ⟨a', b', hne, he, starts⟩⟩
termination_by a.length

theorem exists_of_replaceWord (word new t : Text) :
    replaceWord word (Template.plain new) none t = t ∨
      ∃ front rest, t = front ++ rest ∧ FirstAt word front rest := by
  by_cases h : ∃ a b, t = a ++ b ∧ startsWithWord word a.getLast? b
  · obtain ⟨a, b, rfl, starts⟩ := h
    exact .inr (exists_firstAt starts)
  · left
    have missing : ¬ startsWithWord word t.getLast? [] := fun starts =>
      h ⟨t, [], by simp, starts⟩
    have copied := @replaceWord_append word new none t [] fun a b hne he starts =>
      h ⟨a, b, he, by simpa using starts⟩
    rw [Option.or_none, List.append_nil, replaceWord, if_neg missing, List.append_nil] at copied
    exact copied

/-- A word that cannot be mistaken for a part of a reference takes no opening away. -/
theorem closedFor_of_startsWithWord {before : Option Char}
    (unopened : ¬ containsNoCase ['v', 'a', 'r'] word) (h : startsWithWord word before t) :
    ClosedFor word.length t := by
  simp only [startsWithWord, List.splitAt_eq, Bool.and_eq_true] at h
  obtain ⟨⟨hp, -⟩, ends⟩ := h
  refine closedFor_of_noCase hp unopened fun c last hc => ?_
  simpa [atBoundary, last, hc] using ends

variable (hn : ∀ name ∈ names, TokenName.Valid name)
include hn

/-- A word that first occurs outside of references becomes one. -/
theorem rewrites_replaceWord (unopened : ¬ containsNoCase ['v', 'a', 'r'] word)
    (hl : ¬ Lands names word t) {name : Text} (hname : name ∈ names) (ht : Intact names t) :
    Rewrites names t (replaceWord word (Template.plain (reference name)) none t) := by
  rcases exists_of_replaceWord word (reference name) t with same | ⟨front, rest, rfl, first⟩
  · rw [same]
    exact Rewrites.refl hn ht
  · have closed := closedFor_of_startsWithWord unopened first.starts
    have following : Intact names (rest.drop word.length) := by
      refine Intact.of_append (a := front ++ rest.take word.length) ?_
      rwa [List.append_assoc, List.take_append_drop]
    have replaced := Rewrites.token hname closed (Rewrites.refl hn following)
    rw [replaceWord_of_firstAt first]
    exact Rewrites.append hn ht (fun straddles => hl ⟨front, rest, rfl, first, straddles⟩) replaced

end FontShorthand

end DesignTokens
