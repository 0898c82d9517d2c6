import DesignTokens.Proofs.MappedValues
import DesignTokens.Proofs.References

/-!
References in a stylesheet. What ends a value ends every reference, so a value of an intact sheet is
intact, and a sheet keeps its references if each of its values does.
-/
namespace DesignTokens

open Text TokenName

theorem separates_of_isBlank {c : Char} (h : isBlank c) : separates c :=
  forall_of_inRanges (by decide +kernel) h

variable {names : List Text} (hn : ∀ name ∈ names, TokenName.Valid name)
include hn

theorem references_append_separators (a : Text) {s : Text} (hs : ∀ c ∈ s, separates c) :
    references names (a ++ s) = references names a := by
  induction s generalizing a with
  | nil => rw [List.append_nil]
  | cons c s ih =>
      have tail := ih [] fun c hc => hs c (by simp [hc])
      rw [references_append_cons hn a s (hs c (by simp)), ← List.nil_append s, tail]
      simp [references]

theorem references_cons_of_separates {c : Char} (hc : separates c) (b : Text) :
    references names (c :: b) = references names b := references_append_cons hn [] b hc

theorem references_separators_append {s : Text} (hs : ∀ c ∈ s, separates c) (b : Text) :
    references names (s ++ b) = references names b := by
  induction s with
  | nil => rfl
  | cons c s ih =>
      rw [List.cons_append, references_cons_of_separates hn (hs c (by simp))]
      exact ih fun c hc => hs c (by simp [hc])

theorem references_dropWhile_isBlank (t : Text) :
    references names (t.dropWhile isBlank) = references names t := by
  induction t with
  | nil => rfl
  | cons c t ih =>
      rw [List.dropWhile_cons]
      split
      · rename_i h
        rw [ih, references_cons_of_separates hn (separates_of_isBlank h)]
      · rfl

theorem references_valueOf (raw : Text) :
    references names (Block.valueOf raw) = references names raw := by
  have blankless := references_dropWhile_isBlank hn raw
  unfold Block.valueOf
  split
  · rename_i h
    have blank : ∀ c ∈ raw, separates c := fun c hc =>
      separates_of_isBlank (trimLeft_eq_nil_iff.1 h c hc)
    have last := references_append_separators hn [] fun c hc =>
      blank c (List.mem_of_mem_drop (i := raw.length - 1) hc)
    have all := references_append_separators hn [] blank
    exact last.trans all.symm
  · exact blankless

namespace Block

/-- The references of what follows a name are those of the value and of the rest. -/
theorem references_readsValue (a : Text) {rest value following : Text} {closed : Bool}
    (h : ReadsValue rest value closed following) :
    references names (a ++ rest) =
      references names a ++ (references names value ++ references names following) := by
  have before {blanks : Text} (hb : ∀ c ∈ blanks, isBlank c) :
      references names (a ++ blanks) = references names a :=
    references_append_separators hn a fun c hc => separates_of_isBlank (hb c hc)
  cases h with
  | @closed blanks raw rest hb hne hr =>
      rw [← List.append_assoc, references_append_cons hn _ _ (c := ':') rfl, before hb,
        references_append_cons hn _ _ (c := ';') rfl, references_valueOf hn]
  | @last blanks raw hb hne hr =>
      rw [← List.append_assoc, references_append_cons hn _ _ (c := ':') rfl, before hb,
        references_valueOf hn]
      simp [references]

theorem references_written (a value : Text) {rest old following : Text} {closed : Bool}
    (h : ReadsValue rest old closed following) (f : Text → Text → Text) :
    references names (a ++ (':' :: ' ' :: value ++ if closed then [';'] else []) ++
        (read following).textWith f) =
      references names a ++
        (references names value ++ references names ((read following).textWith f)) := by
  have blank := references_cons_of_separates hn (c := ' ') rfl
  cases h with
  | closed _ _ _ =>
      have cut := references_append_cons hn value ((read following).textWith f) (c := ';') rfl
      simp [references_append_cons hn a _ (c := ':') rfl, blank, cut]
  | last _ _ _ =>
      have empty : (read []).textWith f = [] := by rw [read_nameless (by simp)]; rfl
      simp [references_append_cons hn a _ (c := ':') rfl, blank, empty]

theorem intact_of_mem_entries {t : Text} (ht : Intact names t) :
    ∀ e ∈ (read t).entries, Intact names e.value := by
  have main := read_steps (P := fun t b => ∀ a, Intact names (a ++ t) →
    ∀ e ∈ b.entries, Intact names e.value) ?_ ?_ ?_ t
  · exact main [] ht
  · simp
  · intro lead name rest value closed following _ _ _ hv ih a ha e he
    rw [← List.append_assoc, Intact, references_readsValue hn _ hv] at ha
    simp only [List.mem_append, not_or] at ha
    rcases List.mem_cons.1 he with rfl | he
    · exact ha.2.1
    · exact ih [] ha.2.2 e he
  · intro lead name rest _ _ _ _ ih a ha
    rw [forall_mem_entries_after (P := fun _ value => Intact names value)]
    exact ih (a ++ (lead ++ name)) (by simpa using ha)

theorem keeps_textWith (f : Text → Text → Text) (t : Text)
    (hf : ∀ e ∈ (read t).entries, Keeps names e.value (f e.property e.value)) (ht : Intact names t) :
    Keeps names t ((read t).textWith f) := by
  have main := read_steps (P := fun t b => ∀ a, Intact names (a ++ t) →
    (∀ e ∈ b.entries, Keeps names e.value (f e.property e.value)) →
      Keeps names (a ++ t) (a ++ b.textWith f)) ?_ ?_ ?_ t
  · exact main [] ht hf
  · intro t _ a ha _
    simpa [textWith] using Keeps.refl ha
  · intro lead name rest value closed following hl hname hstop hv ih a ha hf
    let e : Entry := ⟨lead, name, value, closed⟩
    have new := hf e (by simp [cons, e])
    have old := references_readsValue hn (a ++ (lead ++ name)) hv
    have written := references_written hn (a ++ (lead ++ name)) (f e.property value) hv f
    rw [List.append_assoc] at old
    have text : a ++ ((read following).cons e).textWith f = a ++ (lead ++ name) ++
        (':' :: ' ' :: f e.property value ++ if closed then [';'] else []) ++
          (read following).textWith f := by
      rw [textWith_cons, textWith_entry]
      simp [e]
    rw [Intact, old] at ha
    simp only [List.mem_append, not_or] at ha
    have others := ih [] ha.2.2 fun e he => hf e (by simp [cons, he])
    constructor
    · rw [text, Intact, written]
      simp only [List.mem_append, not_or]
      exact ⟨ha.1, new.intact, others.intact⟩
    · rw [text, written, old]
      exact (List.Sublist.refl _).append (new.sublist.append others.sublist)
  · intro lead name rest _ _ _ _ ih a ha hf
    have others := ih (a ++ (lead ++ name)) (by simpa using ha) ((forall_mem_entries_after
      (P := fun name value => Keeps names value (f (Text.lower name) value)) _ _).1 hf)
    rw [textWith_after]
    simpa using others

end Block

namespace Sheet

theorem intact_body {braces run body rest : Text} {a : Text}
    (h : Intact names (a ++ (braces ++ run ++ '{' :: (body ++ '}' :: rest)))) :
    Intact names (a ++ (braces ++ run)) ∧ Intact names body ∧ Intact names rest := by
  rw [← List.append_assoc, intact_append_cons_iff hn _ _ (c := '{') rfl,
    intact_append_cons_iff hn _ _ (c := '}') rfl] at h
  exact h

theorem intact_of_mem_raw {t : Text} (ht : Intact names t) :
    ∀ d ∈ Declaration.raw t, Intact names d.value := by
  have main := read_steps (P := fun t s => ∀ a, Intact names (a ++ t) →
    ∀ entry ∈ s.rules, Intact names entry.2.body) ?_ ?_ ?_ t
  · intro d hd
    obtain ⟨entry, hentry, hd⟩ := List.mem_flatMap.1 hd
    obtain ⟨e, he, rfl⟩ := List.mem_map.1 hd
    exact Block.intact_of_mem_entries hn (main [] ht entry hentry) e he
  · simp
  · intro braces run rest _ _ ih a ha
    rw [forall_mem_rules_after (P := fun r => Intact names r.body)]
    exact ih (a ++ (braces ++ run ++ ['}'])) (by simpa using ha)
  · intro braces run body rest _ _ _ ih a ha entry he
    obtain ⟨-, body_intact, rest_intact⟩ := intact_body hn ha
    rcases List.mem_cons.1 he with rfl | he
    · exact body_intact
    · exact ih [] rest_intact entry he

/-- A sheet keeps its references if each of its values does. -/
theorem keeps_mapValues (f : Text → Text → Text → Text) {t : Text} (ht : Intact names t)
    (hf : ∀ d ∈ Declaration.raw t, Keeps names d.value (f d.selector d.property d.value)) :
    Keeps names t (mapValues f t) := by
  have main := read_steps (P := fun t s => ∀ a, Intact names (a ++ t) →
    (∀ entry ∈ s.rules, ∀ e ∈ (Block.read entry.2.body).entries,
      Keeps names e.value (f (Text.trim entry.2.selector) e.property e.value)) →
    Keeps names (a ++ t) (a ++ (s.mapBodies fun selector body =>
      (Block.read body).textWith (f selector)).text)) ?_ ?_ ?_ t
  · refine main [] ht fun entry hentry e he => ?_
    exact hf _ (Declaration.mem_raw_of_entry hentry he)
  · intro t _ a ha _
    simpa [mapBodies, text, rulesText] using Keeps.refl ha
  · intro braces run rest _ _ ih a ha hf
    have others := ih (a ++ (braces ++ run ++ ['}'])) (by simpa using ha)
      ((forall_mem_rules_after (P := fun r => ∀ e ∈ (Block.read r.body).entries,
        Keeps names e.value (f (Text.trim r.selector) e.property e.value)) _ _).1 hf)
    rw [mapBodies_after, text_after]
    simpa using others
  · intro braces run body rest _ _ _ ih a ha hf
    obtain ⟨front, body_intact, rest_intact⟩ := intact_body hn ha
    have new := Block.keeps_textWith hn _ body (hf (braces, ⟨run, body⟩) (by simp [cons])) body_intact
    have others := ih [] rest_intact fun entry he => hf entry (by simp [cons, he])
    have kept := Keeps.append_cons hn (c := '{') rfl (Keeps.refl front)
      (Keeps.append_cons hn (c := '}') rfl new others)
    rw [mapBodies_cons, text_cons]
    simpa using kept

end Sheet

end DesignTokens
