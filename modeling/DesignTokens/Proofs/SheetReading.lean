import DesignTokens.Proofs.TextCuts
import DesignTokens.Stylesheet.Rule

/-!
The steps of the scan for rules. At each position one of three things is found: text without a
further rule, a run of plain text that a stray `}` ends, or a rule. Each step is an equation for
`Sheet.read`, and `read_steps` is the induction over a whole scan.
-/
namespace DesignTokens.Sheet

/-- Text that can be a selector: not empty, without braces. -/
structure IsPrelude (t : Text) : Prop where
  ne_nil : t ≠ []
  plain : ∀ c ∈ t, isBrace c = false

/-- Text in which the scan finds no rule: no `{` follows plain text, or no `}` follows the first one
that does. -/
inductive Ruleless : Text → Prop
  | plain {braces run : Text} (hb : ∀ c ∈ braces, isBrace c) (hr : ∀ c ∈ run, isBrace c = false) :
      Ruleless (braces ++ run)
  | unclosed {braces run rest : Text} (hb : ∀ c ∈ braces, isBrace c) (hr : IsPrelude run)
      (hc : '}' ∉ rest) : Ruleless (braces ++ run ++ '{' :: rest)

theorem eq_openBrace {c : Char} (h : isBrace c) (hc : c ≠ '}') : c = '{' := by
  simpa [isBrace, hc] using h

/-- The front of a text up to the first brace that follows plain text. -/
theorem front_eq {t rest : Text} {brace : Char}
    (h : (t.dropWhile isBrace).dropWhile (!isBrace ·) = brace :: rest) :
    t = t.takeWhile isBrace ++ (t.dropWhile isBrace).takeWhile (!isBrace ·) ++ brace :: rest ∧
      IsPrelude ((t.dropWhile isBrace).takeWhile (!isBrace ·)) ∧ isBrace brace := by
  have front := List.takeWhile_append_dropWhile (p := (!isBrace ·)) (l := t.dropWhile isBrace)
  have whole := List.takeWhile_append_dropWhile (p := isBrace) (l := t)
  have stop : isBrace brace := by simpa using Text.of_dropWhile_eq_cons h
  rw [h] at front
  refine ⟨by rw [List.append_assoc, front, whole], ⟨?_, ?_⟩, stop⟩
  · intro empty
    rw [empty, List.nil_append] at front
    have := Text.of_dropWhile_eq_cons front.symm
    simp [stop] at this
  · intro c hc
    simpa using List.mem_takeWhile_imp hc

section Steps

variable {braces run : Text} (hb : ∀ c ∈ braces, isBrace c) (hr : IsPrelude run)

include hb hr

theorem takeWhile_front (rest : Text) (brace : Char) :
    (braces ++ run ++ brace :: rest).takeWhile isBrace = braces := by
  obtain ⟨c, run, rfl⟩ := List.exists_cons_of_ne_nil hr.ne_nil
  simpa using Text.takeWhile_run hb (hr.plain c (by simp))

theorem dropWhile_front (rest : Text) (brace : Char) :
    (braces ++ run ++ brace :: rest).dropWhile isBrace = run ++ brace :: rest := by
  obtain ⟨c, run, rfl⟩ := List.exists_cons_of_ne_nil hr.ne_nil
  simpa using Text.dropWhile_run hb (hr.plain c (by simp))

omit hb in
theorem takeWhile_prelude {brace : Char} (h : isBrace brace) (rest : Text) :
    (run ++ brace :: rest).takeWhile (!isBrace ·) = run :=
  Text.takeWhile_run (fun c hc => by simp [hr.plain c hc]) (by simp [h])

omit hb in
theorem dropWhile_prelude {brace : Char} (h : isBrace brace) (rest : Text) :
    (run ++ brace :: rest).dropWhile (!isBrace ·) = brace :: rest :=
  Text.dropWhile_run (fun c hc => by simp [hr.plain c hc]) (by simp [h])

theorem read_stray (rest : Text) :
    read (braces ++ run ++ '}' :: rest) = (read rest).after (braces ++ run ++ ['}']) := by
  have front := dropWhile_front hb hr rest '}'
  have after := @dropWhile_prelude _ hr '}' rfl rest
  rw [read]
  split
  · rename_i h
    rw [front, after] at h
    cases h
  · rename_i brace following h
    rw [front, after] at h
    cases h
    rw [if_pos rfl, takeWhile_front hb hr, front, takeWhile_prelude hr rfl]

/-- A prelude with `{`, and a body up to the next `}`. -/
theorem read_rule {body : Text} (hbody : '}' ∉ body) (rest : Text) :
    read (braces ++ run ++ '{' :: (body ++ '}' :: rest)) = (read rest).cons braces ⟨run, body⟩ := by
  have front := dropWhile_front hb hr (body ++ '}' :: rest) '{'
  have after := @dropWhile_prelude _ hr '{' rfl (body ++ '}' :: rest)
  rw [read]
  split
  · rename_i h
    rw [front, after] at h
    cases h
  · rename_i brace following h
    rw [front, after] at h
    cases h
    rw [if_neg (by decide)]
    split
    · rename_i h
      rw [Text.cut_append_cons hbody] at h
      cases h
    · rename_i h
      rw [Text.cut_append_cons hbody] at h
      cases h
      rw [takeWhile_front hb hr, front, takeWhile_prelude hr rfl]

end Steps

theorem read_ruleless {t : Text} (h : Ruleless t) : read t = ⟨[], t⟩ := by
  cases h with
  | @plain braces run hb hr =>
      have front : (braces ++ run).dropWhile isBrace = run.dropWhile isBrace :=
        List.dropWhile_append_of_pos hb
      have after : (run.dropWhile isBrace).dropWhile (!isBrace ·) = [] := by
        rw [List.dropWhile_eq_nil_iff]
        intro c hc
        simp [hr c (List.dropWhile_subset isBrace hc)]
      rw [read]
      split
      · rfl
      · rename_i h
        rw [front, after] at h
        cases h
  | @unclosed braces run rest hb hr hc =>
      have front := dropWhile_front hb hr rest '{'
      have after := @dropWhile_prelude _ hr '{' rfl rest
      rw [read]
      split
      · rfl
      · rename_i brace following h
        rw [front, after] at h
        cases h
        rw [if_neg (by decide)]
        split
        · rfl
        · rename_i h
          rw [Text.cut_of_notMem hc] at h
          cases h

/-- Induction over a scan: what is shown of text without a rule, and kept by a stray `}` and by a
rule, holds of every text and what is read from it. -/
theorem read_steps {P : Text → Sheet → Prop}
    (ruleless : ∀ t, Ruleless t → P t ⟨[], t⟩)
    (stray : ∀ braces run rest, (∀ c ∈ braces, isBrace c) → IsPrelude run → P rest (read rest) →
      P (braces ++ run ++ '}' :: rest) ((read rest).after (braces ++ run ++ ['}'])))
    (rule : ∀ braces run body rest, (∀ c ∈ braces, isBrace c) → IsPrelude run → '}' ∉ body →
      P rest (read rest) →
      P (braces ++ run ++ '{' :: (body ++ '}' :: rest)) ((read rest).cons braces ⟨run, body⟩))
    (t : Text) : P t (read t) := by
  have skippedBraces (t : Text) : ∀ c ∈ t.takeWhile isBrace, isBrace c :=
    fun c hc => List.mem_takeWhile_imp hc
  fun_induction read t with
  | case1 t front h =>
      have plain : ∀ c ∈ front, isBrace c = false := by simpa using h
      have text : t = t.takeWhile isBrace ++ front := List.takeWhile_append_dropWhile.symm
      refine ruleless t ?_
      rw [text]
      exact .plain (skippedBraces t) plain
  | case2 t skipped front selector rest h ih =>
      obtain ⟨text, prelude, -⟩ := front_eq h
      have step := stray skipped selector rest (skippedBraces t) prelude ih
      rwa [← text] at step
  | case3 t front brace rest h hne plain hc =>
      obtain ⟨text, prelude, hbrace⟩ := front_eq h
      obtain rfl := eq_openBrace hbrace hne
      obtain ⟨rfl, unclosed⟩ := Text.eq_of_cut_none hc
      refine ruleless t ?_
      rw [text]
      exact .unclosed (skippedBraces t) prelude unclosed
  | case4 t skipped front selector brace rest h hne body following hc ih =>
      obtain ⟨text, prelude, hbrace⟩ := front_eq h
      obtain rfl := eq_openBrace hbrace hne
      obtain ⟨closed, hbody⟩ := Text.eq_of_cut_some hc
      have step := rule skipped selector body following (skippedBraces t) prelude hbody ih
      rwa [← closed, ← text] at step

end DesignTokens.Sheet
