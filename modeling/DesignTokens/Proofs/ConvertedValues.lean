import DesignTokens.Length.FontSize
import DesignTokens.Proofs.DeclarableValues

/-!
Values of a stylesheet without comments, as they are written and with their lengths converted. A
conversion writes lengths in inert characters and keeps the rest, so a declarable value stays one.
-/
namespace DesignTokens

open Text Value

/-! ### Values as they are written -/

namespace Block

theorem infix_valueOf (raw : Text) : valueOf raw <:+: raw := by
  unfold valueOf
  split
  · exact (List.drop_suffix _ raw).isInfix
  · exact (List.dropWhile_suffix isBlank).isInfix

theorem ReadsValue.infix {t value rest : Text} {closed : Bool}
    (h : ReadsValue t value closed rest) : value <:+: t ∧ ';' ∉ value ∧ rest <:+ t := by
  cases h with
  | @closed blanks raw rest hb hne hr =>
      have inside : raw <:+: blanks ++ ':' :: (raw ++ ';' :: rest) :=
        ⟨blanks ++ [':'], ';' :: rest, by simp⟩
      refine ⟨(infix_valueOf raw).trans inside, fun mem => hr ((infix_valueOf raw).subset mem), ?_⟩
      exact ⟨blanks ++ ':' :: raw ++ [';'], by simp⟩
  | @last blanks raw hb hne hr =>
      have inside : raw <:+: blanks ++ ':' :: raw := ⟨blanks ++ [':'], [], by simp⟩
      refine ⟨(infix_valueOf raw).trans inside, fun mem => hr ((infix_valueOf raw).subset mem), ?_⟩
      exact List.nil_suffix

theorem infix_of_mem_entries (t : Text) :
    ∀ e ∈ (read t).entries, e.value <:+: t ∧ ';' ∉ e.value := by
  refine read_steps (P := fun t b => ∀ e ∈ b.entries, e.value <:+: t ∧ ';' ∉ e.value) ?_ ?_ ?_ t
  · simp
  · intro lead name rest value closed following hl hn hstop hv ih e he
    obtain ⟨inside, plain, later⟩ := hv.infix
    rcases List.mem_cons.1 he with rfl | he
    · exact ⟨inside.trans (List.suffix_append _ _).isInfix, plain⟩
    · obtain ⟨inside, plain⟩ := ih e he
      exact ⟨(inside.trans later.isInfix).trans (List.suffix_append _ _).isInfix, plain⟩
  · intro lead name rest hl hn hstop hv ih
    apply (forall_mem_entries_after
      (P := fun _ value => value <:+: lead ++ name ++ rest ∧ ';' ∉ value) _ _).2
    intro e he
    obtain ⟨inside, plain⟩ := ih e he
    exact ⟨inside.trans (List.suffix_append _ _).isInfix, plain⟩

/-- A value that is not blank has blanks after it only. -/
theorem exists_blanks_of_valueOf {raw : Text} (h : trim (valueOf raw) ≠ []) :
    ∃ blanks, (∀ c ∈ blanks, isBlank c) ∧ valueOf raw = trim (valueOf raw) ++ blanks := by
  obtain ⟨a, b, text, ha, hb⟩ := exists_trim (valueOf raw)
  cases a with
  | nil => exact ⟨b, hb, text⟩
  | cons c a =>
      have blank : isBlank c := ha c List.mem_cons_self
      have left : trimLeft raw ≠ [] := fun nil => h (by
        rw [trim_valueOf, trim, nil]
        rfl)
      have first : valueOf raw = trimLeft raw := by
        unfold valueOf
        split
        · exact absurd ‹_› left
        · rfl
      have solid := of_dropWhile_eq_cons (first.symm.trans text)
      rw [blank] at solid
      cases solid

theorem exists_blanks_of_mem_entries (t : Text) : ∀ e ∈ (read t).entries, trim e.value ≠ [] →
    ∃ blanks, (∀ c ∈ blanks, isBlank c) ∧ e.value = trim e.value ++ blanks := by
  refine read_steps (P := fun _ b => ∀ e ∈ b.entries, trim e.value ≠ [] →
    ∃ blanks, (∀ c ∈ blanks, isBlank c) ∧ e.value = trim e.value ++ blanks) ?_ ?_ ?_ t
  · simp
  · intro lead name rest value closed following hl hn hstop hv ih e he
    rcases List.mem_cons.1 he with rfl | he
    · cases hv with
      | closed => exact exists_blanks_of_valueOf
      | last => exact exists_blanks_of_valueOf
    · exact ih e he
  · intro lead name rest hl hn hstop hv ih
    exact (forall_mem_entries_after (P := fun _ value => trim value ≠ [] →
      ∃ blanks, (∀ c ∈ blanks, isBlank c) ∧ value = trim value ++ blanks) _ _).2 ih

theorem isName_of_mem_entries (t : Text) : ∀ e ∈ (read t).entries, IsName e.name := by
  refine read_steps (P := fun _ b => ∀ e ∈ b.entries, IsName e.name) ?_ ?_ ?_ t
  · simp
  · intro lead name rest value closed following hl hn hstop hv ih e he
    rcases List.mem_cons.1 he with rfl | he
    · exact hn
    · exact ih e he
  · intro lead name rest hl hn hstop hv ih
    exact (forall_mem_entries_after (P := fun name _ => IsName name) _ _).2 ih

end Block

theorem Sheet.infix_of_mem_rules (t : Text) : ∀ entry ∈ (read t).rules, entry.2.body <:+: t := by
  refine read_steps (P := fun t s => ∀ entry ∈ s.rules, entry.2.body <:+: t) ?_ ?_ ?_ t
  · simp
  · intro braces run rest hb hr ih
    apply (forall_mem_rules_after
      (P := fun r => r.body <:+: braces ++ run ++ '\x7d' :: rest) _ _).2
    intro entry he
    exact (ih entry he).trans ⟨braces ++ run ++ ['\x7d'], [], by simp⟩
  · intro braces run body rest hb hr hbody ih entry he
    rcases List.mem_cons.1 he with rfl | he
    · exact ⟨braces ++ run ++ ['\x7b'], '\x7d' :: rest, by simp⟩
    · exact (ih entry he).trans ⟨braces ++ run ++ '\x7b' :: body ++ ['\x7d'], [], by simp⟩

namespace Declaration

theorem infix_of_mem_raw {t : Text} {d : Declaration} (h : d ∈ raw t) :
    d.value <:+: t ∧ Fits d.value := by
  obtain ⟨entry, hr, h⟩ := List.mem_flatMap.1 h
  obtain ⟨e, he, rfl⟩ := List.mem_map.1 h
  obtain ⟨inside, plain⟩ := Block.infix_of_mem_entries entry.2.body e he
  refine ⟨inside.trans (Sheet.infix_of_mem_rules t entry hr), plain, fun mem => ?_⟩
  exact Sheet.mem_rules_body entry hr (inside.subset mem)

theorem exists_blanks_of_mem_raw {t : Text} {d : Declaration} (h : d ∈ raw t)
    (hne : trim d.value ≠ []) :
    ∃ blanks, (∀ c ∈ blanks, isBlank c) ∧ d.value = trim d.value ++ blanks := by
  obtain ⟨entry, -, h⟩ := List.mem_flatMap.1 h
  obtain ⟨e, he, rfl⟩ := List.mem_map.1 h
  exact Block.exists_blanks_of_mem_entries entry.2.body e he hne

theorem isDeclarable_of_mem_raw {t : Text} (ht : ¬ ['/', '*'] <:+: t) {d : Declaration}
    (h : d ∈ raw t) : IsDeclarable d.value := by
  obtain ⟨inside, fits⟩ := infix_of_mem_raw h
  exact isDeclarable_iff.2 ⟨fits, fun comment => ht (comment.trans inside)⟩

end Declaration

/-! ### Conversion -/

/-- A text in which some parts are written in inert characters instead. -/
inductive Respelled : Text → Text → Prop
  | nil : Respelled [] []
  | keep (c : Char) {t t' : Text} (h : Respelled t t') : Respelled (c :: t) (c :: t')
  | change (part : Text) {s t t' : Text} (hne : s ≠ []) (hs : ∀ c ∈ s, isInert c)
      (h : Respelled t t') : Respelled (part ++ t) (s ++ t')

namespace Respelled

variable {t t' p : Text}

theorem append_left (front : Text) (h : Respelled t t') : Respelled (front ++ t) (front ++ t') := by
  induction front with
  | nil => exact h
  | cons c front ih => exact .keep c ih

theorem refl (t : Text) : Respelled t t := by
  have whole := append_left t .nil
  rwa [List.append_nil] at whole

theorem append {u u' : Text} (h : Respelled t t') (hu : Respelled u u') :
    Respelled (t ++ u) (t' ++ u') := by
  induction h with
  | nil => exact hu
  | keep c h ih => exact .keep c ih
  | change part hne hs h ih =>
      rw [List.append_assoc, List.append_assoc]
      exact .change part hne hs ih

theorem starts_of_starts (h : Respelled t t') (hp : ∀ c ∈ p, isInert c = false) (start : p <+: t') :
    p <+: t := by
  induction h generalizing p with
  | nil => exact start
  | keep c h ih =>
      cases p with
      | nil => exact List.nil_prefix
      | cons d p =>
          obtain ⟨rfl, rest⟩ := List.cons_prefix_cons.1 start
          exact List.cons_prefix_cons.2 ⟨rfl, ih (fun c hc => hp c (by simp [hc])) rest⟩
  | @change part s t t' hne hs h ih =>
      cases p with
      | nil => exact List.nil_prefix
      | cons d p =>
          obtain ⟨c, s, rfl⟩ := List.exists_cons_of_ne_nil hne
          obtain ⟨rfl, -⟩ := List.cons_prefix_cons.1 start
          have inert := hs d (by simp)
          rw [hp d (by simp)] at inert
          cases inert

theorem infix_of_infix (h : Respelled t t') (hne : p ≠ []) (hp : ∀ c ∈ p, isInert c = false)
    (inside : p <:+: t') : p <:+: t := by
  induction h with
  | nil => exact inside
  | keep c h ih =>
      rcases List.infix_cons_iff.1 inside with start | inside
      · exact (starts_of_starts (.keep c h) hp start).isInfix
      · exact (ih inside).trans (List.suffix_cons c _).isInfix
  | @change part s t t' hs_ne hs h ih =>
      have after : p <:+: t' := by
        clear ih hs_ne
        induction s with
        | nil => exact inside
        | cons c s ihs =>
            have other : c ∉ p := fun mem => by simpa [hp c mem] using hs c (by simp)
            have later := (infix_cons_iff_of_notMem hne other (s ++ t')).1 inside
            exact ihs (fun d hd => hs d (by simp [hd])) later
      exact (ih after).trans (List.suffix_append part _).isInfix

theorem isDeclarable (h : Respelled t t') (ht : IsDeclarable t) : IsDeclarable t' := by
  intro p hb hi
  obtain ⟨hne, -, chars⟩ := of_mem_breaks hb
  exact ht p hb (h.infix_of_infix hne (fun c hc => (chars c hc).1) hi)

end Respelled

theorem respelled_mapTokens {f : Text → Text}
    (hf : ∀ part, f part = part ∨ f part ≠ [] ∧ ∀ c ∈ f part, isInert c) (r : Recognizer)
    (t : Text) : Respelled t (mapTokens r f t) := by
  have main (ps : List Piece) :
      Respelled (ps.flatMap Piece.text) (ps.flatMap (Piece.mapToken f)) := by
    induction ps with
    | nil => exact .nil
    | cons p ps ih =>
        rw [List.flatMap_cons, List.flatMap_cons]
        cases p with
        | plain c => exact ih.keep c
        | token part =>
            rcases hf part with same | ⟨hne, inert⟩
            · rw [Piece.mapToken, same]
              exact ih.append_left part
            · exact .change part hne inert ih
  have whole := main (pieces r t)
  rwa [pieces_text] at whole

namespace Conversion

theorem lengthText_ne_nil {size : Float} {u : LengthUnit} (h : u ∈ LengthUnit.known) :
    lengthText size u ≠ [] := by
  have names : ∀ u ∈ LengthUnit.known, u.name ≠ [] := by decide
  intro empty
  exact names u h (List.append_eq_nil_iff.1 empty).2

theorem apply_cases {c : Conversion} (hc : c.target ∈ LengthUnit.known) (b : LengthBases)
    (token : Text) :
    apply b token c = token ∨ apply b token c ≠ [] ∧ ∀ d ∈ apply b token c, isInert d := by
  unfold apply
  split
  · split_ifs
    · split
      · exact .inr ⟨lengthText_ne_nil hc, isInert_lengthText hc⟩
      · exact .inl rfl
    · exact .inl rfl
  · exact .inl rfl

theorem applyAll_cases {chain : List Conversion} (hc : ∀ c ∈ chain, c.target ∈ LengthUnit.known)
    (b : LengthBases) (token : Text) :
    applyAll b chain token = token ∨
      applyAll b chain token ≠ [] ∧ ∀ d ∈ applyAll b chain token, isInert d := by
  refine List.foldlRecOn (motive := fun size => size = token ∨ size ≠ [] ∧ ∀ d ∈ size, isInert d)
    chain (apply b) (.inl rfl) fun size hsize c hmem => ?_
  rcases apply_cases (hc c hmem) b size with same | new
  · rwa [same]
  · exact .inr new

theorem text_of_cutCall? {before : Option Char} {t front head tail : Text}
    (h : cutCall? before t = some (front, head, tail)) : t = front ++ head ++ tail := by
  induction t generalizing before front with
  | nil => cases h
  | cons c t ih =>
      rw [cutCall?] at h
      split at h
      · rename_i found hf
        cases h
        unfold callHead? at hf
        split_ifs at hf
        obtain ⟨name, -, rfl⟩ := Option.map_eq_some_iff.1 hf
        exact (List.prefix_iff_eq_append.1 (List.take_prefix name.length (c :: t))).symm
      · obtain ⟨⟨front, head, tail⟩, hrest, he⟩ := Option.map_eq_some_iff.1 h
        cases he
        rw [ih hrest]
        rfl

theorem text_of_cutClosing? {depth : Nat} {t inner tail : Text}
    (h : cutClosing? depth t = some (inner, tail)) : t = inner ++ ')' :: tail := by
  induction t generalizing depth inner with
  | nil => cases h
  | cons c t ih =>
      rw [cutClosing?] at h
      split at h
      · rename_i closes
        cases h
        rw [closes.1]
        rfl
      · obtain ⟨⟨inner, tail⟩, hrest, he⟩ := Option.map_eq_some_iff.1 h
        cases he
        rw [ih hrest]
        rfl

variable {chain : List Conversion} (hc : ∀ c ∈ chain, c.target ∈ LengthUnit.known)
include hc

theorem respelled_convert (b : LengthBases) (value : Text) :
    Respelled value (convert b chain value) := by
  have flat (t : Text) : Respelled t (convertFlat b chain t) :=
    respelled_mapTokens (applyAll_cases hc b) Length.convertible t
  fun_induction convert b chain value with
  | case1 value hcut => exact flat value
  | case2 value front head tail hcut hclose => exact flat value
  | case3 value front head tail hcut inner rest hclose inner_ih rest_ih =>
      have call := (((flat front).append (.refl head)).append inner_ih).append (rest_ih.keep ')')
      rw [text_of_cutCall? hcut, text_of_cutClosing? hclose]
      simpa using call

/-- The values of a converted sheet are declarable if the sheet has no comments. -/
theorem isDeclarable_of_mem_parse (b : LengthBases) {t : Text} (ht : ¬ ['/', '*'] <:+: t) :
    ∀ d ∈ Declaration.parse (convertSheet b chain t), IsDeclarable d.value := by
  rw [convertSheet]
  split
  · intro d hd
    rw [Declaration.parse_eq_map_raw] at hd
    obtain ⟨raw, hraw, rfl⟩ := List.mem_map.1 hd
    exact (Declaration.isDeclarable_of_mem_raw ht hraw).of_isInfix (trim_isInfix raw.value)
  · have converted (d : Declaration) (hd : d ∈ Declaration.raw t) :
        IsDeclarable (convert (b.forSelector (fontSizes b t) d.selector) chain d.value) :=
      (respelled_convert hc _ d.value).isDeclarable (Declaration.isDeclarable_of_mem_raw ht hd)
    rw [Declaration.parse_mapValues_of_fits _ t fun d hd => (isDeclarable_iff.1 (converted d hd)).1]
    simp only [List.mem_map]
    rintro - ⟨d, hd, rfl⟩
    exact (converted d hd).of_isInfix (trim_isInfix _)

end Conversion

end DesignTokens
