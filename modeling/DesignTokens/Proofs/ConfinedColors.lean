import DesignTokens.Proofs.InsertedReferences
import DesignTokens.Proofs.ReplacedTexts
import DesignTokens.Proofs.ValueLayouts

/-!
Literals that start in values only. To replace such a literal in the whole text is to replace it in
each value, and other such literals start in values only afterwards too; so a sheet whose colors are
confined to values has the same layout after the pass for colors, with new values.
-/
namespace DesignTokens

open Text

/-- Literals as references, one after another. -/
def replaceEach (items : List (Text × Text)) (t : Text) : Text :=
  items.foldl (fun t e => replaceAll e.1 (reference e.2) t) t

section Each

variable {items : List (Text × Text)}

/-- A color occurs after a replacement only where it occurred before. -/
theorem StartsColor.infix_of_replaceAll {literal other name : Text} (hne : other ≠ [])
    (hn : TokenName.Valid name) (ha : Apart literal) (hs : StartsColor literal) {t : Text}
    (h : literal <:+: replaceAll other (reference name) t) : literal <:+: t := by
  induction t using replace_steps hne with
  | nil => rwa [replaceAll_nil hne] at h
  | found t ih =>
      rw [replaceAll_found hne] at h
      have later := hs.infix_of_append (hn.notMem rfl) (hn.notMem rfl) h
      exact (ih later).trans (List.suffix_append other t).isInfix
  | char c t copied ih =>
      rw [replaceAll_cons hne copied] at h
      rcases List.infix_cons_iff.1 h with start | later
      · have again : literal <+: replaceAll other (reference name) (c :: t) := by
          rwa [replaceAll_cons hne copied]
        exact (prefix_of_prefix_replaceAll hne ha again).isInfix
      · exact (ih later).trans (List.suffix_cons c t).isInfix

/-- A reference that colors bring in is that of a color in the text. -/
theorem infix_of_infix_replaceEach
    (hi : ∀ e ∈ items, (Apart e.1 ∧ StartsColor e.1) ∧ TokenName.Valid e.2) {p : Text}
    (plain : Property.Plain p) {t : Text} (h : reference p <:+: replaceEach items t) :
    reference p <:+: t ∨ ∃ e ∈ items, e.2 = p ∧ e.1 <:+: t := by
  induction items generalizing t with
  | nil => exact .inl h
  | cons e items ih =>
      obtain ⟨⟨apart, starts⟩, valid⟩ := hi e (by simp)
      rcases ih (fun e he => hi e (by simp [he])) h with already | ⟨e', he', same, inside⟩
      · by_cases found : e.2 = p ∧ e.1 <:+: t
        · exact .inr ⟨e, by simp, found⟩
        · by_cases same : p = e.2
          · have none : replaceAll e.1 (reference e.2) t = t :=
              replaceAll_of_not_infix starts.ne_nil fun inside => found ⟨same.symm, inside⟩
            exact .inl (none ▸ already)
          · have anew : Inserted [e.2] t (replaceAll e.1 (reference e.2) t) :=
              .replaceAll (by simp) e.1 t
            exact .inl (anew.infix_of_infix (by simpa using valid) (by simpa using same) plain already)
      · obtain ⟨⟨apart', starts'⟩, -⟩ := hi e' (by simp [he'])
        have before := starts'.infix_of_replaceAll starts.ne_nil valid apart' inside
        exact .inr ⟨e', by simp [he'], same, before⟩

/-- Blanks around a text stay where they are. -/
theorem replaceEach_blank (hi : ∀ e ∈ items, IsSolid e.1) {a b : Text} (ha : ∀ c ∈ a, isBlank c)
    (hb : ∀ c ∈ b, isBlank c) (t : Text) :
    replaceEach items (a ++ (t ++ b)) = a ++ (replaceEach items t ++ b) := by
  induction items generalizing t with
  | nil => rfl
  | cons e items ih =>
      have first : replaceAll e.1 (reference e.2) (a ++ (t ++ b)) =
          a ++ (replaceAll e.1 (reference e.2) t ++ b) := (hi e (by simp)).replaceAll_blank ha hb t
      have others := ih (fun e he => hi e (by simp [he])) (replaceAll e.1 (reference e.2) t)
      rwa [← first] at others

theorem infix_replaceEach_trim_iff (hi : ∀ e ∈ items, IsSolid e.1) {p : Text} (hp : IsSolid p)
    (t : Text) : p <:+: replaceEach items (trim t) ↔ p <:+: replaceEach items t := by
  obtain ⟨a, b, text, ha, hb⟩ := exists_trim t
  rw [← hp.infix_blank_iff ha hb (replaceEach items (trim t)), ← replaceEach_blank hi ha hb, ← text]

end Each

namespace Layout

/-- No occurrence of a literal starts outside of the values. -/
def Confines (literal : Text) : Layout → Prop
  | tail t => ¬ literal <:+: t
  | slot front d rest =>
    (∀ a q, front = a ++ q → q ≠ [] → ¬ literal <+: q ++ (d.value ++ rest.text)) ∧
      rest.Confines literal

/-- A literal that can stand in a value, apart from references. -/
structure Replaceable (literal : Text) : Prop where
  ne_nil : literal ≠ []
  apart : Apart literal
  fits : Value.Fits literal

variable {literal other new name : Text} {l : Layout}

theorem Replaceable.notMem_of_stops (h : Replaceable literal) {t : Text} (ht : Stops t) {a q : Text}
    (text : literal = a ++ q) (hq : q ≠ []) : ¬ q <+: t := by
  intro start
  obtain ⟨c, q, rfl⟩ := List.exists_cons_of_ne_nil hq
  obtain ⟨rest, rfl⟩ := start
  have mem : c ∈ literal := by simp [text]
  rcases ht c rfl with rfl | rfl
  · exact h.fits.entry_open mem
  · exact h.fits.rule_open mem

theorem replaceAll_text (hl : Replaceable literal) (h : l.Confines literal) (he : l.Ended) :
    replaceAll literal new l.text = (l.mapValues (replaceAll literal new)).text := by
  induction l with
  | tail t => exact replaceAll_of_not_infix hl.ne_nil h
  | slot front d rest ih =>
      have after : ∀ a q, literal = a ++ q → a ≠ [] → q ≠ [] → ¬ q <+: rest.text :=
        fun a q text _ hq => hl.notMem_of_stops he.1 text hq
      rw [text, replaceAll_front hl.ne_nil h.1, replaceAll_append hl.ne_nil after, ih h.2 he.2]
      rfl

theorem Confines.mapValues (h : l.Confines literal) (hl : Replaceable literal) (he : l.Ended)
    (ho : Replaceable other) (hc : l.Confines other) :
    (l.mapValues (replaceAll literal (reference name))).Confines other := by
  induction l with
  | tail t => exact hc
  | slot front d rest ih =>
      refine ⟨fun a q text hq start => ?_, ih h.2 he.2 hc.2⟩
      have after : ∀ a q, literal = a ++ q → a ≠ [] → q ≠ [] → ¬ q <+: rest.text :=
        fun a q text _ hq => hl.notMem_of_stops he.1 text hq
      rw [← replaceAll_text hl h.2 he.2, ← replaceAll_append hl.ne_nil after] at start
      refine hc.1 a q text hq ?_
      -- What the literal has after the front it had there before, since it is no part of a reference.
      rcases prefix_append_cases start with short | ⟨c, s, hs, rfl⟩
      · exact short.trans (List.prefix_append q _)
      · have apart : Apart (c :: s) := fun u hu suffix =>
          ho.apart u hu (suffix.trans (List.suffix_append q _))
        exact (List.prefix_append_right_inj q).2 (prefix_of_prefix_replaceAll hl.ne_nil apart hs)

end Layout

namespace Sheet.Lays

variable {t : Text} {l : Layout}

theorem admits_replaceAll {literal name : Text} (hl : literal ≠ []) (hn : TokenName.Valid name)
    (h : Lays t l) : l.Admits (replaceAll literal (reference name)) :=
  h.admits.imp fun v ne_nil fits => ⟨replaceAll_ne_nil hl (by simp [reference]) ne_nil,
    (Inserted.replaceAll (List.mem_singleton_self name) literal v).fits
      (fits_reference (by simpa using hn)) fits⟩

/-- Confined literals are replaced in each value, one literal after another. -/
theorem replaceEach_text {items : List (Text × Text)}
    (hi : ∀ e ∈ items, Layout.Replaceable e.1 ∧ TokenName.Valid e.2) (h : Lays t l)
    (hc : ∀ e ∈ items, l.Confines e.1) :
    l.Admits (replaceEach items) ∧ replaceEach items t = (l.mapValues (replaceEach items)).text := by
  induction items generalizing t l with
  | nil =>
      have same : l.mapValues (replaceEach []) = l := l.mapValues_id
      exact ⟨h.admits, by rw [same, h.text_eq]; rfl⟩
  | cons e items ih =>
      obtain ⟨literal, valid⟩ := hi e (by simp)
      have confined := hc e (by simp)
      have replaced : replaceAll e.1 (reference e.2) t = (l.mapValues _).text :=
        h.text_eq ▸ Layout.replaceAll_text literal confined h.ended
      have others := ih (fun e he => hi e (by simp [he]))
        (h.mapValues (h.admits_replaceAll literal.ne_nil valid))
        fun e' he' => confined.mapValues literal h.ended (hi e' (by simp [he'])).1
          (hc e' (by simp [he']))
      rw [Layout.admits_mapValues, Layout.mapValues_mapValues, ← replaced] at others
      exact others

/-- The pass for colors goes over the values only, if it finds its literals only there. -/
theorem substituteAll_text {m : TokenMap}
    (hm : ∀ e ∈ m.entries, Layout.Replaceable e.1 ∧ TokenName.Valid e.2) (h : Lays t l)
    (hc : ∀ e ∈ m.entries, l.Confines e.1) :
    l.Admits m.substituteAll ∧ m.substituteAll t = (l.mapValues m.substituteAll).text := by
  have entries {P : Text × Text → Prop} (h : ∀ e ∈ m.entries, P e) : ∀ e ∈ m.byLength, P e :=
    fun e he => h e (TokenMap.mem_byLength.1 he)
  exact h.replaceEach_text (entries hm) (entries hc)

end Sheet.Lays

end DesignTokens
