import DesignTokens.Proofs.CharClasses
import DesignTokens.Proofs.TextCuts

/-!
The steps of the scan for entries. After a name there is a value, or the name is skipped. Each step
is an equation for `Block.read`, and `read_steps` is the induction over a whole body. A body that is
written again with other values is read as the same entries with these values (`read_textWith`).
-/
namespace DesignTokens.Block

/-- What can follow a name: blanks, a colon and a value up to a `;` or to the end of the body. -/
inductive ReadsValue : Text → Text → Bool → Text → Prop
  | closed {blanks raw rest : Text} (hb : ∀ c ∈ blanks, Text.isBlank c) (hne : raw ≠ [])
      (hr : ';' ∉ raw) : ReadsValue (blanks ++ ':' :: (raw ++ ';' :: rest)) (valueOf raw) true rest
  | last {blanks raw : Text} (hb : ∀ c ∈ blanks, Text.isBlank c) (hne : raw ≠ [])
      (hr : ';' ∉ raw) : ReadsValue (blanks ++ ':' :: raw) (valueOf raw) false []

theorem trimLeft_colon {blanks : Text} (hb : ∀ c ∈ blanks, Text.isBlank c) (rest : Text) :
    Text.trimLeft (blanks ++ ':' :: rest) = ':' :: rest := Text.dropWhile_run hb rfl

theorem nextIs_colon {blanks : Text} (hb : ∀ c ∈ blanks, Text.isBlank c) (rest : Text) :
    Text.nextIs isNameChar (blanks ++ ':' :: rest) = false := by
  cases blanks with
  | nil => rfl
  | cons c blanks => exact not_isNameChar_of_isBlank (hb c List.mem_cons_self)

theorem readValue?_eq_some_iff {t value rest : Text} {closed : Bool} :
    readValue? t = some (value, closed, rest) ↔ ReadsValue t value closed rest := by
  constructor
  · intro h
    have front := List.takeWhile_append_dropWhile (p := Text.isBlank) (l := t)
    have blanks : ∀ c ∈ t.takeWhile Text.isBlank, Text.isBlank c :=
      fun c hc => List.mem_takeWhile_imp hc
    unfold readValue? at h
    split at h
    · rename_i u hu
      rw [Text.trimLeft] at hu
      rw [hu] at front
      split at h
      · cases h
      · rename_i raw r hne hc
        obtain ⟨text, hraw⟩ := Text.eq_of_cut_some hc
        cases h
        rw [← front, text]
        exact .closed blanks hne hraw
      · rename_i raw hne hc
        obtain ⟨text, hraw⟩ := Text.eq_of_cut_none hc
        cases h
        rw [← front, text]
        exact .last blanks hne hraw
    · cases h
  · intro h
    cases h with
    | @closed blanks raw rest hb hne hr =>
        rw [readValue?, trimLeft_colon hb]
        simp only [Text.cut_append_cons hr]
    | @last blanks raw hb hne hr =>
        rw [readValue?, trimLeft_colon hb]
        simp only [Text.cut_of_notMem hr]

theorem readValue?_eq_none_iff {t : Text} :
    readValue? t = none ↔ ∀ c rest, Text.trimLeft t = ':' :: c :: rest → c = ';' := by
  unfold readValue?
  split
  · rename_i u hu
    cases u with
    | nil => simp [hu, Text.cut]
    | cons c rest =>
        by_cases h : c = ';'
        · simp [hu, h, Text.cut]
        · constructor
          · intro none
            simp only [Text.cut, h, if_false] at none
            split at none <;> simp_all
          · intro semicolon
            exact absurd (semicolon c rest hu) h
  · rename_i other
    simp only [true_iff]
    intro c rest h
    exact absurd h (other _)

/-- Whether a value follows is decided by the text up to the next name. -/
theorem readValue?_append_eq_none {front rest rest' : Text} (hfront : ∃ c ∈ front, isNameChar c)
    (h : readValue? (front ++ rest) = none) : readValue? (front ++ rest') = none := by
  obtain ⟨c, hc, name⟩ := hfront
  have kept : c ∈ Text.trimLeft front := by
    rw [← List.takeWhile_append_dropWhile (p := Text.isBlank) (l := front), List.mem_append] at hc
    refine hc.resolve_left fun blank => ?_
    have := List.mem_takeWhile_imp blank
    simp [not_isBlank_of_isNameChar name] at this
  obtain ⟨d, tail, front_eq⟩ := List.exists_cons_of_ne_nil (List.ne_nil_of_mem kept)
  have trim (rest : Text) : Text.trimLeft (front ++ rest) = d :: (tail ++ rest) := by
    rw [Text.trimLeft] at front_eq ⊢
    rw [List.dropWhile_append, front_eq]
    rfl
  rw [readValue?_eq_none_iff, trim] at h ⊢
  intro e others heq
  obtain ⟨rfl, heq⟩ := List.cons.inj heq
  -- The name is not the colon, so it is after it.
  rw [front_eq, List.mem_cons] at kept
  cases tail with
  | nil =>
      rcases kept with rfl | kept
      · cases name
      · cases kept
  | cons e' tail =>
      cases heq
      exact h e (tail ++ rest) rfl

/-- Text that can be a name. -/
structure IsName (t : Text) : Prop where
  ne_nil : t ≠ []
  chars : ∀ c ∈ t, isNameChar c

theorem takeWhile_name {name rest : Text} (hn : ∀ c ∈ name, isNameChar c)
    (hstop : Text.nextIs isNameChar rest = false) : (name ++ rest).takeWhile isNameChar = name := by
  cases rest with
  | nil => simpa using hn
  | cons c rest => exact Text.takeWhile_run hn hstop

theorem dropWhile_name {name rest : Text} (hn : ∀ c ∈ name, isNameChar c)
    (hstop : Text.nextIs isNameChar rest = false) : (name ++ rest).dropWhile isNameChar = rest := by
  cases rest with
  | nil => simpa using hn
  | cons c rest => exact Text.dropWhile_run hn hstop

section Steps

variable {lead name rest : Text} (hl : ∀ c ∈ lead, isNameChar c = false) (hn : IsName name)
include hl hn

theorem takeWhile_lead (rest : Text) : (lead ++ name ++ rest).takeWhile (!isNameChar ·) = lead := by
  obtain ⟨c, name, rfl⟩ := List.exists_cons_of_ne_nil hn.ne_nil
  rw [List.append_assoc]
  exact Text.takeWhile_run (fun c hc => by simp [hl c hc]) (by simp [hn.chars c (by simp)])

theorem dropWhile_lead (rest : Text) :
    (lead ++ name ++ rest).dropWhile (!isNameChar ·) = name ++ rest := by
  obtain ⟨c, name, rfl⟩ := List.exists_cons_of_ne_nil hn.ne_nil
  rw [List.append_assoc]
  exact Text.dropWhile_run (fun c hc => by simp [hl c hc]) (by simp [hn.chars c (by simp)])

/-- The scan at a name: what is read depends on whether a value follows. -/
theorem read_name (hstop : Text.nextIs isNameChar rest = false) :
    read (lead ++ name ++ rest) =
      match readValue? rest with
      | some (value, closed, following) => (read following).cons ⟨lead, name, value, closed⟩
      | none => (read rest).after (lead ++ name) := by
  have atName := dropWhile_lead hl hn rest
  have atLead := takeWhile_lead hl hn rest
  obtain ⟨c, name, rfl⟩ := List.exists_cons_of_ne_nil hn.ne_nil
  have chars : ∀ a ∈ name, isNameChar a := fun a ha => hn.chars a (by simp [ha])
  rw [read]
  split
  · rename_i h
    rw [atName] at h
    cases h
  · rename_i d tail h
    rw [atName, List.cons_append] at h
    cases h
    have afterName := dropWhile_name chars hstop
    have ofName := takeWhile_name chars hstop
    rw [atLead, ofName]
    split
    · rename_i value closed following hv
      rw [afterName] at hv
      rw [hv]
    · rename_i hv
      rw [afterName] at hv ⊢
      rw [hv]

end Steps

theorem read_nameless {t : Text} (h : ∀ c ∈ t, isNameChar c = false) : read t = ⟨[], t⟩ := by
  have none : t.dropWhile (!isNameChar ·) = [] := List.dropWhile_eq_nil_iff.2 (by simpa using h)
  rw [read]
  split
  · rfl
  · rename_i c rest hd
    rw [none] at hd
    cases hd

/-- Induction over a scan: what is shown of text without names, and kept by an entry and by a
skipped name, holds of every body and what is read from it. -/
theorem read_steps {P : Text → Block → Prop}
    (nameless : ∀ t, (∀ c ∈ t, isNameChar c = false) → P t ⟨[], t⟩)
    (entry : ∀ lead name rest value closed following, (∀ c ∈ lead, isNameChar c = false) →
      IsName name → Text.nextIs isNameChar rest = false →
      ReadsValue rest value closed following → P following (read following) →
      P (lead ++ name ++ rest) ((read following).cons ⟨lead, name, value, closed⟩))
    (skip : ∀ lead name rest, (∀ c ∈ lead, isNameChar c = false) → IsName name →
      Text.nextIs isNameChar rest = false → readValue? rest = none → P rest (read rest) →
      P (lead ++ name ++ rest) ((read rest).after (lead ++ name)))
    (t : Text) : P t (read t) := by
  have nameless_lead (t : Text) : ∀ c ∈ t.takeWhile (!isNameChar ·), isNameChar c = false :=
    fun c hc => by simpa using List.mem_takeWhile_imp hc
  have stop (t : Text) : Text.nextIs isNameChar (t.dropWhile isNameChar) = false := by
    cases h : t.dropWhile isNameChar with
    | nil => rfl
    | cons c rest => exact Text.of_dropWhile_eq_cons h
  -- The text is its lead, its first name and what follows that name.
  have parts {t rest : Text} {c : Char} (h : t.dropWhile (!isNameChar ·) = c :: rest) :
      t.takeWhile (!isNameChar ·) ++ (c :: rest.takeWhile isNameChar) ++
        rest.dropWhile isNameChar = t ∧ IsName (c :: rest.takeWhile isNameChar) := by
    have first : isNameChar c := by simpa using Text.of_dropWhile_eq_cons h
    constructor
    · rw [List.append_assoc, List.cons_append, List.takeWhile_append_dropWhile, ← h,
        List.takeWhile_append_dropWhile]
    · refine ⟨by simp, fun a ha => ?_⟩
      rcases List.mem_cons.1 ha with rfl | ha
      · exact first
      · exact List.mem_takeWhile_imp ha
  fun_induction read t with
  | case1 t h => exact nameless t (by simpa using h)
  | case2 t lead c rest h name value closed following hv ih =>
      obtain ⟨text, isName⟩ := parts h
      have step := entry lead name _ value closed following (nameless_lead t) isName (stop rest)
        (readValue?_eq_some_iff.1 hv) ih
      rwa [text] at step
  | case3 t lead c rest h name hv ih =>
      obtain ⟨text, isName⟩ := parts h
      have step := skip lead name _ (nameless_lead t) isName (stop rest) hv ih
      rwa [text] at step

theorem textWith_after (f : Text → Text → Text) (front : Text) (b : Block) :
    (b.after front).textWith f = front ++ b.textWith f := by
  obtain ⟨entries, tail⟩ := b
  cases entries with
  | nil => rfl
  | cons e rest => simp [after, textWith, Entry.textWith, Entry.property]

theorem textWith_cons (f : Text → Text → Text) (e : Entry) (b : Block) :
    (b.cons e).textWith f = e.textWith (f e.property e.value) ++ b.textWith f := by
  simp [cons, textWith]

theorem forall_mem_entries_after {P : Text → Text → Prop} (front : Text) (b : Block) :
    (∀ e ∈ (b.after front).entries, P e.name e.value) ↔ ∀ e ∈ b.entries, P e.name e.value := by
  obtain ⟨entries, tail⟩ := b
  cases entries with
  | nil => simp [after]
  | cons e rest => simp [after]

/-- What a written entry starts with, and what follows its name. -/
theorem textWith_entry (e : Entry) (value : Text) :
    e.textWith value =
      e.lead ++ e.name ++ (':' :: ' ' :: value ++ if e.closed then [';'] else []) := by
  simp [Entry.textWith]

theorem textWith_front (f : Text → Text → Text) (t : Text) :
    (read t).textWith f = t ∨
      ∃ front u v, t = front ++ u ∧ (read t).textWith f = front ++ v ∧
        ∃ c ∈ front, isNameChar c := by
  have named {lead name : Text} (hn : IsName name) : ∃ c ∈ lead ++ name, isNameChar c := by
    obtain ⟨c, hc⟩ := List.exists_mem_of_ne_nil name hn.ne_nil
    exact ⟨c, by simp [hc], hn.chars c hc⟩
  refine read_steps (P := fun t b => b.textWith f = t ∨ ∃ front u v, t = front ++ u ∧
    b.textWith f = front ++ v ∧ ∃ c ∈ front, isNameChar c) ?_ ?_ ?_ t
  · intro t ht
    left
    simp [textWith]
  · intro lead name rest value closed following hl hn hstop hv ih
    right
    have written := textWith_cons f ⟨lead, name, value, closed⟩ (read following)
    rw [textWith_entry, List.append_assoc] at written
    exact ⟨lead ++ name, rest, _, rfl, written, named hn⟩
  · intro lead name rest hl hn hstop hv ih
    right
    exact ⟨lead ++ name, rest, _, rfl, textWith_after f _ _, named hn⟩

def withValues (f : Text → Text → Text) (b : Block) : Block :=
  ⟨b.entries.map fun e => { e with value := f e.property e.value }, b.tail⟩

theorem withValues_after (f : Text → Text → Text) (front : Text) (b : Block) :
    (b.after front).withValues f = (b.withValues f).after front := by
  obtain ⟨entries, tail⟩ := b
  cases entries with
  | nil => rfl
  | cons e rest => rfl

/-- What follows a name does so too after the value is changed, and the rest is read next. -/
theorem readValue?_written {rest value following : Text} {closed : Bool}
    (h : ReadsValue rest value closed following) {value' : Text} (hv : ';' ∉ value')
    (f : Text → Text → Text) :
    readValue? (':' :: ' ' :: value' ++ (if closed then [';'] else []) ++
      (read following).textWith f) =
        some (valueOf (' ' :: value'), closed, (read following).textWith f) := by
  have plain : ';' ∉ ' ' :: value' := by simpa using hv
  rw [readValue?_eq_some_iff]
  cases h with
  | closed _ _ _ =>
      have again := @ReadsValue.closed [] _ ((read following).textWith f) (by simp)
        (List.cons_ne_nil _ _) plain
      simpa using again
  | last _ _ _ =>
      have empty : (read []).textWith f = [] := by rw [read_nameless (by simp)]; rfl
      have again := @ReadsValue.last [] _ (by simp) (List.cons_ne_nil _ _) plain
      simpa [empty] using again

/-- A skipped name is skipped again in front of a body with other values. -/
theorem read_skip_textWith {lead name rest : Text} (hl : ∀ c ∈ lead, isNameChar c = false)
    (hn : IsName name) (hstop : Text.nextIs isNameChar rest = false)
    (hv : readValue? rest = none) (f : Text → Text → Text) :
    read (lead ++ name ++ (read rest).textWith f) =
      (read ((read rest).textWith f)).after (lead ++ name) := by
  have again : Text.nextIs isNameChar ((read rest).textWith f) = false ∧
      readValue? ((read rest).textWith f) = none := by
    rcases textWith_front f rest with same | ⟨front, u, v, hu, hw, hfront⟩
    · rw [same]
      exact ⟨hstop, hv⟩
    · rw [hu] at hstop hv
      rw [hw]
      refine ⟨?_, readValue?_append_eq_none hfront hv⟩
      obtain ⟨c, hc, -⟩ := hfront
      obtain ⟨d, tail, rfl⟩ := List.exists_cons_of_ne_nil (List.ne_nil_of_mem hc)
      exact hstop
  rw [read_name hl hn again.1, again.2]

/-- Written with values that hold no `;`, a body is read as the same entries with these values,
each after the blank that is written before it. -/
theorem read_textWith (f : Text → Text → Text) (t : Text)
    (hf : ∀ e ∈ (read t).entries, ';' ∉ f e.property e.value) :
    read ((read t).textWith f) =
      (read t).withValues fun property value => valueOf (' ' :: f property value) := by
  revert hf
  refine read_steps (P := fun t b => (∀ e ∈ b.entries, ';' ∉ f e.property e.value) →
    read (b.textWith f) = b.withValues fun property value => valueOf (' ' :: f property value))
    ?_ ?_ ?_ t
  · intro t ht _
    simpa [textWith, withValues] using read_nameless ht
  · intro lead name rest value closed following hl hn hstop hv ih hf
    let e : Entry := ⟨lead, name, value, closed⟩
    have plain : ';' ∉ f e.property value := hf e (by simp [cons, e])
    have others := ih fun e he => hf e (by simp [cons, he])
    rw [textWith_cons, textWith_entry, List.append_assoc, read_name hl hn rfl,
      readValue?_written hv plain]
    simp only [others]
    rfl
  · intro lead name rest hl hn hstop hv ih hf
    have others := ih ((forall_mem_entries_after
      (P := fun name value => ';' ∉ f (Text.lower name) value) _ _).1 hf)
    rw [textWith_after, read_skip_textWith hl hn hstop hv, others, withValues_after]

end DesignTokens.Block
