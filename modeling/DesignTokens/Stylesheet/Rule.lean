import DesignTokens.Text.Basic

/-!
A stylesheet as a flat sequence of rules. A rule is a prelude, `{`, a body without `}`, and `}`; the
prelude is the longest text before the `{` that holds no brace, and it is not empty. Blocks inside a
body are not looked into, so the prelude of an outer block swallows the first inner one. What
belongs to no rule is kept, so a sheet is put together again character for character (`text_read`).
-/
namespace DesignTokens

structure Rule where
  selector : Text
  body : Text
  deriving DecidableEq, Repr

namespace Rule

def text (r : Rule) : Text := r.selector ++ '{' :: r.body ++ ['}']

end Rule

/-- The rules of a stylesheet, each with the text between it and the rule before, and the text after
the last rule. -/
structure Sheet where
  rules : List (Text × Rule)
  tail : Text
  deriving DecidableEq, Repr

namespace Sheet

def rulesText : List (Text × Rule) → Text
  | [] => []
  | (gap, rule) :: rest => gap ++ rule.text ++ rulesText rest

def text (s : Sheet) : Text := rulesText s.rules ++ s.tail

def after (front : Text) : Sheet → Sheet
  | ⟨[], tail⟩ => ⟨[], front ++ tail⟩
  | ⟨(gap, rule) :: rest, tail⟩ => ⟨(front ++ gap, rule) :: rest, tail⟩

def cons (gap : Text) (rule : Rule) (s : Sheet) : Sheet := ⟨(gap, rule) :: s.rules, s.tail⟩

theorem text_after (front : Text) (s : Sheet) : (s.after front).text = front ++ s.text := by
  obtain ⟨rules, tail⟩ := s
  cases rules with
  | nil => rfl
  | cons r rest => simp [after, text, rulesText]

def isBrace (c : Char) : Bool := c == '{' || c == '}'

/-- The rules of a text from left to right. A brace that opens or closes no rule is skipped. -/
def read (t : Text) : Sheet :=
  let skipped := t.takeWhile isBrace
  let front := t.dropWhile isBrace
  let selector := front.takeWhile (!isBrace ·)
  match _h : front.dropWhile (!isBrace ·) with
  | [] => ⟨[], t⟩
  | brace :: rest =>
    if brace = '}' then (read rest).after (skipped ++ selector ++ ['}'])
    else
      match _hb : Text.cut '}' rest with
      | (_, none) => ⟨[], t⟩
      | (body, some rest) => (read rest).cons skipped ⟨selector, body⟩
termination_by t.length
decreasing_by
  all_goals
    have h1 := Text.length_dropWhile_le isBrace t
    have h2 := Text.length_dropWhile_le (!isBrace ·) (t.dropWhile isBrace)
    rw [show (t.dropWhile isBrace).dropWhile (!isBrace ·) = _ from _h, List.length_cons] at h2
  · omega
  · have h3 := Text.length_cut_tail (congrArg Prod.snd _hb)
    omega

theorem text_read (t : Text) : (read t).text = t := by
  fun_induction read t with
  | case1 => simp [text, rulesText]
  | case2 t skipped front selector rest h ih =>
      rw [text_after, ih]
      have := List.takeWhile_append_dropWhile (p := (!isBrace ·)) (l := front)
      have := List.takeWhile_append_dropWhile (p := isBrace) (l := t)
      simp_all [skipped, front, selector]
  | case3 => simp [text, rulesText]
  | case4 t skipped front selector brace rest h hb body following hc ih =>
      have e1 := List.takeWhile_append_dropWhile (p := (!isBrace ·)) (l := front)
      have e2 := List.takeWhile_append_dropWhile (p := isBrace) (l := t)
      have e3 := Text.cut_text '}' rest
      have hbrace : brace = '{' := by
        have := List.head?_dropWhile_not (!isBrace ·) front
        simp_all [isBrace]
      subst hbrace
      rw [h] at e1
      rw [hc] at e3
      simp only [text, cons, rulesText, Rule.text] at ih ⊢
      simp only [List.append_assoc, List.cons_append, List.nil_append, ih] at e3 ⊢
      rw [e3, show selector ++ '{' :: rest = front from e1]
      exact e2

/-- Where each rule starts and ends, counted in characters from `position`. -/
def spansFrom (position : Nat) : List (Text × Rule) → List (Rule × Nat × Nat)
  | [] => []
  | (gap, rule) :: rest =>
    let start := position + gap.length
    let stop := start + rule.text.length
    (rule, start, stop) :: spansFrom stop rest

def spans (s : Sheet) : List (Rule × Nat × Nat) := spansFrom 0 s.rules

/-- The sheet with every body changed by a function that also sees the trimmed selector. -/
def mapBodies (f : Text → Text → Text) (s : Sheet) : Sheet :=
  ⟨s.rules.map fun (gap, rule) => (gap, ⟨rule.selector, f (Text.trim rule.selector) rule.body⟩),
    s.tail⟩

end Sheet

end DesignTokens
