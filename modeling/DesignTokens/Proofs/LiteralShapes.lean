import DesignTokens.Proofs.CollectedLiterals
import DesignTokens.Proofs.FontParts
import DesignTokens.Proofs.NormalForms
import DesignTokens.Proofs.ReferencedTokens
import DesignTokens.Proofs.WrittenLengths

/-!
The shapes of the literals that a stylesheet without references can have. Lengths, durations and
easings stand apart from references; so do colors, which moreover start like no part of a
reference. A whole value in normal form has an opening only if the value does.
-/
namespace DesignTokens

namespace Text

theorem exists_of_mem_piecesFrom {r : Recognizer} {before : Option Char} {skip : Nat}
    {t token : Text} (h : Piece.token token ∈ piecesFrom r before skip t) :
    ∃ before u n, u <:+ t ∧ u ≠ [] ∧ r before u = some (n + 1) ∧ token = u.take (n + 1) := by
  have later {c : Char} {t : Text} (h : ∃ before u n, u <:+ t ∧ u ≠ [] ∧
      r before u = some (n + 1) ∧ token = u.take (n + 1)) :
      ∃ before u n, u <:+ c :: t ∧ u ≠ [] ∧ r before u = some (n + 1) ∧ token = u.take (n + 1) := by
    obtain ⟨before, u, n, hu, rest⟩ := h
    exact ⟨before, u, n, hu.trans (List.suffix_cons c t), rest⟩
  fun_induction piecesFrom r before skip t with
  | case1 => cases h
  | case2 before skip c t ih => exact later (ih h)
  | case3 before c t n hr ih =>
      rcases List.mem_cons.1 h with same | h
      · cases same
        exact ⟨before, c :: t, n, List.suffix_refl _, by simp, hr, rfl⟩
      · exact later (ih h)
  | case4 before c t hr ih =>
      rcases List.mem_cons.1 h with same | h
      · cases same
      · exact later (ih h)

theorem exists_of_mem_tokens {r : Recognizer} {t token : Text} (h : token ∈ tokens r t) :
    ∃ before u n, u <:+ t ∧ u ≠ [] ∧ r before u = some (n + 1) ∧ token = u.take (n + 1) := by
  obtain ⟨piece, hp, hpt⟩ := List.mem_filterMap.1 h
  cases piece with
  | plain c => cases hpt
  | token token' =>
      cases hpt
      exact exists_of_mem_piecesFrom hp

theorem infix_of_mem_tokens {r : Recognizer} {t token : Text} (h : token ∈ tokens r t) :
    token <:+: t := by
  obtain ⟨before, u, n, hu, -, -, rfl⟩ := exists_of_mem_tokens h
  exact (List.take_prefix _ u).isInfix.trans hu.isInfix

end Text

open Text

/-! ### Lengths and durations -/

theorem take_scanned {u unit : Text} {n : Numeral} {tail : Text}
    (hscan : Numeral.scan? u = some (n, tail)) (hunit : unit.isPrefixOf tail) :
    n.IsWritten ∧ u.take (u.length - (tail.drop unit.length).length) = n.text ++ unit := by
  obtain ⟨written, rfl⟩ := Numeral.of_scan? hscan
  obtain ⟨rest, rfl⟩ := List.isPrefixOf_iff_prefix.1 hunit
  have length : (n.text ++ (unit ++ rest)).length - rest.length = (n.text ++ unit).length := by
    simp
    omega
  refine ⟨written, ?_⟩
  rw [List.drop_left, length, ← List.append_assoc, List.take_left]

/-- A length in a value is a numeral with a unit. -/
theorem Length.exists_of_mem_literals {v literal : Text} (h : literal ∈ literals v) :
    ∃ n : Numeral, ∃ unit ∈ [LengthUnit.px, .rem, .em, .percent, .vh, .vw],
      n.IsWritten ∧ literal = n.text ++ unit.name := by
  obtain ⟨before, u, k, -, -, hr, rfl⟩ := exists_of_mem_tokens h
  rw [candidate, tokenOf] at hr
  split at hr
  · rename_i numeral unit rest hscan
    split at hr
    · cases hr
    · obtain ⟨⟨m, tail⟩, hm, hscan⟩ := Option.bind_eq_some_iff.1 hscan
      obtain ⟨unit', hu, hscan⟩ := Option.bind_eq_some_iff.1 hscan
      cases hscan
      have found : unit.name.isPrefixOf tail :=
        List.find?_some (p := fun unit : LengthUnit => unit.name.isPrefixOf tail) hu
      obtain ⟨written, text⟩ := take_scanned hm found
      rw [← Option.some.inj hr]
      exact ⟨_, unit, List.mem_of_find?_eq_some hu, written, text⟩
  · cases hr

/-- A duration in a value is a numeral with a unit. -/
theorem Duration.exists_of_mem_literals {v literal : Text} (h : literal ∈ literals v) :
    ∃ n : Numeral, ∃ unit ∈ unitNames, n.IsWritten ∧ literal = n.text ++ unit := by
  obtain ⟨before, u, k, -, -, hr, rfl⟩ := exists_of_mem_tokens h
  obtain ⟨⟨m, tail⟩, hm, hr⟩ := Option.bind_eq_some_iff.1 hr
  obtain ⟨unit, hu, hr⟩ := Option.bind_eq_some_iff.1 hr
  have found : unit.isPrefixOf tail :=
    List.find?_some (p := fun unit : Text => unit.isPrefixOf tail) hu
  obtain ⟨written, text⟩ := take_scanned hm found
  simp only at hr
  split at hr
  · cases hr
  · rw [← Option.some.inj hr]
    exact ⟨m, unit, List.mem_of_find?_eq_some hu, written, text⟩

theorem Separate.of_written {n : Numeral} (hn : n.IsWritten) {unit : Text}
    (last : unit.getLast?.any (· ∉ opening)) (flat : '(' ∉ unit) : Separate (n.text ++ unit) := by
  obtain ⟨c, hc, hopen⟩ := (Option.any_eq_true _ _).1 last
  have unit_ne : unit ≠ [] := by
    rintro rfl
    cases hc
  refine ⟨by simp [unit_ne], .of_getLast? ?_ (by simpa using hopen) fun long => ?_, fun dashes => ?_⟩
  · rw [List.getLast?_append_of_ne_nil _ unit_ne, hc]
  · rcases List.mem_append.1 (long.subset (by decide : '(' ∈ opening)) with inside | inside
    · rcases hn.mem_text_cases _ inside with digit | other | other
      · cases digit
      · cases other
      · cases other
    · exact flat inside
  · obtain ⟨t, ht⟩ := dashes
    have head := hn.size_ne_minus unit
    rw [Numeral.text_eq] at ht
    split at ht
    · rw [List.append_assoc] at ht
      exact head (congrArg List.head? (List.tail_eq_of_cons_eq ht)).symm
    · rw [List.nil_append] at ht
      exact head (congrArg List.head? ht).symm

theorem Separate.of_length {v literal : Text} (h : literal ∈ Length.literals v) :
    Separate literal := by
  obtain ⟨n, unit, hu, written, rfl⟩ := Length.exists_of_mem_literals h
  have ends : ∀ unit ∈ [LengthUnit.px, .rem, .em, .percent, .vh, .vw],
      unit.name.getLast?.any (· ∉ opening) ∧ '(' ∉ unit.name := by decide
  exact .of_written written (ends unit hu).1 (ends unit hu).2

theorem Separate.of_duration {v literal : Text} (h : literal ∈ Duration.literals v) :
    Separate literal := by
  obtain ⟨n, unit, hu, written, rfl⟩ := Duration.exists_of_mem_literals h
  have ends : ∀ unit ∈ Duration.unitNames, unit.getLast?.any (· ∉ opening) ∧ '(' ∉ unit := by
    decide
  exact .of_written written (ends unit hu).1 (ends unit hu).2

/-! ### Easings and colors -/

theorem take_call {u head args rest : Text} {c : Char} (h : u = head ++ (args ++ c :: rest)) :
    u.take (head.length + args.length + 1) = head ++ args ++ [c] := by
  have length : head.length + args.length + 1 = (head ++ args ++ [c]).length := by
    simp [Nat.add_assoc]
  have regroup : u = (head ++ args ++ [c]) ++ rest := by simp [h]
  rw [length, regroup, List.take_left']
  rfl

/-- The call at the start of a text ends with the first closing parenthesis. -/
theorem Easing.eq_of_callLength? {u head : Text} {n : Nat} (h : callLength? u head = some n) :
    ∃ args rest, ')' ∉ args ∧ u = head ++ (args ++ ')' :: rest) ∧
      n = head.length + args.length + 1 := by
  unfold callLength? at h
  split at h
  · rename_i hp
    obtain ⟨tail, rfl⟩ := List.isPrefixOf_iff_prefix.1 hp
    have cut := List.takeWhile_append_dropWhile (p := (· != ')')) (l := tail)
    simp only [List.drop_left] at h
    split at h
    · rename_i shorter
      have inner : ')' ∉ tail.takeWhile (· != ')') := fun hc => by
        simpa using List.mem_takeWhile_imp hc
      refine ⟨tail.takeWhile (· != ')'), (tail.dropWhile (· != ')')).tail, inner, ?_,
        (Option.some.inj h).symm⟩
      cases hd : tail.dropWhile (· != ')') with
      | nil =>
          rw [hd, List.append_nil] at cut
          rw [cut, List.length_append] at shorter
          omega
      | cons c rest =>
          obtain rfl : c = ')' := by simpa using of_dropWhile_eq_cons hd
          rw [hd] at cut
          rw [List.tail_cons, cut]
    · cases h
  · cases h

theorem Separate.of_call {head args : Text} (hhead : head.head?.any (· ≠ '-'))
    (h : ¬ opening <:+: head ++ args ++ [')']) : Separate (head ++ args ++ [')']) := by
  cases head with
  | nil => cases hhead
  | cons c head =>
      have hne : c ≠ '-' := by simpa using hhead
      refine ⟨by simp, .of_close h, fun dashes => ?_⟩
      exact hne (List.cons_prefix_cons.1 dashes).1.symm

/-- An easing in a value is a keyword, or a call up to the first closing parenthesis. -/
theorem Easing.eq_of_mem_literals {v literal : Text} (h : literal ∈ literals v) :
    literal ∈ keywords ∨ ∃ head ∈ calls, ∃ args, ')' ∉ args ∧ literal = head ++ args ++ [')'] := by
  obtain ⟨before, u, n, -, -, hr, rfl⟩ := exists_of_mem_tokens h
  rw [token] at hr
  split at hr
  · cases hr
  · have found := List.mem_of_find?_eq_some hr
    rw [lengths, List.mem_append, List.mem_filterMap, List.mem_filterMap] at found
    rcases found with ⟨keyword, hk, found⟩ | ⟨head, hh, found⟩
    · rw [keywordLength?] at found
      split at found
      · rename_i hp
        have taken := List.prefix_iff_eq_take.1 (List.isPrefixOf_iff_prefix.1 hp)
        rw [← Option.some.inj found, ← taken]
        exact .inl hk
      · cases found
    · obtain ⟨args, rest, inner, hu, hn⟩ := eq_of_callLength? found
      rw [hn, take_call hu]
      exact .inr ⟨head, hh, args, inner, rfl⟩

theorem Separate.of_easing {v literal : Text} (hl : literal ∈ Easing.literals v)
    (h : ¬ opening <:+: v) : Separate literal := by
  have part := infix_of_mem_tokens hl
  rcases Easing.eq_of_mem_literals hl with keyword | ⟨head, hh, args, -, rfl⟩
  · have plain : ∀ k ∈ Easing.keywords, k ≠ [] ∧ 'v' ∉ k ∧ ¬ ['-', '-'] <+: k := by decide
    obtain ⟨hne, hv, dashes⟩ := plain literal keyword
    exact ⟨hne, .of_notMem hv, dashes⟩
  · have starts : ∀ head ∈ Easing.calls, head.head?.any (· ≠ '-') := by decide
    exact .of_call (starts head hh) fun long => h (long.trans part)

/-- What a color starts with: a `#`, or the name of a call with its parenthesis. -/
def StartsColor (literal : Text) : Prop :=
  ['#'] <+: literal ∨ ∃ head ∈ Color.callHeads, head <+: literal

theorem StartsColor.ne_nil {literal : Text} (h : StartsColor literal) : literal ≠ [] := by
  rintro rfl
  have heads : ∀ head ∈ Color.callHeads, head ≠ [] := by decide
  rcases h with sharp | ⟨head, hh, hp⟩
  · simp at sharp
  · exact heads head hh (List.prefix_nil.1 hp)

theorem Color.eq_of_callLength? {u : Text} {n : Nat} (h : callLength? u = some n) :
    ∃ head ∈ callHeads, ∃ args rest, ('(' ∉ args ∧ ')' ∉ args) ∧
      u = head ++ (args ++ ')' :: rest) ∧ n = head.length + args.length + 1 := by
  obtain ⟨head, hh, hn⟩ := Option.bind_eq_some_iff.1 h
  have hp : head.isPrefixOf u := List.find?_some (p := fun head : Text => head.isPrefixOf u) hh
  obtain ⟨tail, rfl⟩ := List.isPrefixOf_iff_prefix.1 hp
  refine ⟨head, List.mem_of_find?_eq_some hh, ?_⟩
  simp only [List.drop_left] at hn
  split at hn
  · rename_i closes
    have cut := List.takeWhile_append_dropWhile (p := fun c => c != '(' && c != ')') (l := tail)
    have flat : '(' ∉ tail.takeWhile (fun c => c != '(' && c != ')') ∧
        ')' ∉ tail.takeWhile (fun c => c != '(' && c != ')') :=
      ⟨fun hc => by simpa using List.mem_takeWhile_imp hc,
        fun hc => by simpa using List.mem_takeWhile_imp hc⟩
    generalize tail.takeWhile (fun c => c != '(' && c != ')') = args at cut closes hn flat
    generalize tail.dropWhile (fun c => c != '(' && c != ')') = close at cut
    subst cut
    rw [← List.append_assoc, ← List.length_append, List.drop_left, Bool.and_eq_true] at closes
    refine ⟨args, close.tail, flat, ?_, (Option.some.inj hn).symm⟩
    cases close with
    | nil => cases closes.2
    | cons c rest =>
        obtain rfl : c = ')' := by simpa [nextIs] using closes.2
        rfl
  · cases hn

/-- A color literal is a `#` with hexadecimal digits, or a call without another one inside of it. -/
theorem Color.eq_of_mem_literals {v literal : Text} (h : literal ∈ literals v) :
    (∃ digits, literal = '#' :: digits ∧ ∀ c ∈ digits, isHexDigit c) ∨
      ∃ head ∈ callHeads, ∃ args, ('(' ∉ args ∧ ')' ∉ args) ∧ literal = head ++ args ++ [')'] := by
  obtain ⟨before, u, n, -, -, hr, rfl⟩ := exists_of_mem_tokens h
  unfold Color.token at hr
  split at hr
  · rename_i rest
    obtain ⟨m, hm, hn⟩ := Option.map_eq_some_iff.1 hr
    obtain rfl : m = n := Nat.succ.inj hn
    have digits : m = (rest.takeWhile isHexDigit).length := by
      simp only [hexLength?] at hm
      split at hm
      · exact (Option.some.inj hm).symm
      · cases hm
    refine .inl ⟨rest.takeWhile isHexDigit, ?_, fun c hc => List.mem_takeWhile_imp hc⟩
    rw [digits, List.take_succ_cons, ← List.prefix_iff_eq_take.1 (List.takeWhile_prefix _)]
  · obtain ⟨head, hh, args, rest, flat, hu, hn⟩ := eq_of_callLength? hr
    exact .inr ⟨head, hh, args, flat, by rw [hn, take_call hu]⟩

theorem apart_of_color {v literal : Text} (hl : literal ∈ Color.literals v) :
    Apart literal ∧ StartsColor literal := by
  rcases Color.eq_of_mem_literals hl with ⟨digits, rfl, hex⟩ | ⟨head, hh, args, flat, rfl⟩
  · constructor
    · refine .of_notMem fun hv => ?_
      rcases List.mem_cons.1 hv with hv | hv
      · exact absurd hv (by decide)
      · exact absurd (hex _ hv) (by decide)
    · exact .inl (by simp)
  · constructor
    · have heads : ∀ head ∈ Color.callHeads, ¬ opening <:+: head := by decide
      refine .of_close fun long => heads head hh ?_
      rw [List.append_assoc] at long
      exact @infix_of_infix_append ['v', 'a', 'r'] head _ '(' (by simp [flat.1]) long
    · exact .inr ⟨head, hh, by simp⟩

theorem opening_normal_iff (v : Text) :
    (opening <:+: Value.shadow v ↔ opening <:+: v) ∧
      (opening <:+: Value.radius v ↔ opening <:+: v) ∧
        (opening <:+: Value.fontFamily v ↔ opening <:+: v) := by
  have solid : ∀ c ∈ opening, isBlank c = false := List.forall_iff_forall_mem.1 (by decide)
  have hne : opening ≠ [] := by decide
  exact ⟨Value.infix_collapsed_iff solid hne v, Value.infix_radius_iff solid hne (by decide) v,
    Value.infix_fontFamily_iff solid hne (by decide) v⟩

namespace Candidates.Finds

variable {d : Declaration} {c : Category} {literal : Text} (h : Finds d c literal)
  (hd : ¬ opening <:+: d.value)
include h hd

theorem separate (hc : c ∈ [Category.spacing, .borderWidths, .durations, .easings]) :
    Separate literal := by
  cases h with
  | spacing hp hl => exact .of_length hl
  | borderWidth hp hl => exact .of_length (List.mem_of_head? hl)
  | duration hp hl => exact .of_duration hl
  | easing hp hl => exact .of_easing hl hd
  | radius | shadow | family | shorthandFamily | shorthandSize | shorthandLineHeight
  | shorthandWeight => simp at hc
  | whole hp =>
      simp only [wholeValues, List.mem_cons, Prod.mk.injEq, List.not_mem_nil, or_false] at hp hc
      grind

theorem plain (hc : c ∈ [Category.shadows, .radii, .fontFamilies]) : ¬ opening <:+: literal := by
  cases h with
  | shadow hp => exact fun ho => hd ((opening_normal_iff d.value).1.1 ho)
  | radius hp => exact fun ho => hd ((opening_normal_iff d.value).2.1.1 ho)
  | family hp => exact fun ho => hd ((opening_normal_iff d.value).2.2.1 ho)
  | @shorthandFamily family hp hl =>
      intro ho
      exact hd (((opening_normal_iff family).2.2.1 ho).trans (FontShorthand.infix_of_family? hl))
  | spacing | borderWidth | duration | easing | shorthandSize | shorthandLineHeight
  | shorthandWeight => simp at hc
  | whole hp =>
      simp only [wholeValues, List.mem_cons, Prod.mk.injEq, List.not_mem_nil, or_false] at hp hc
      grind

end Candidates.Finds

end DesignTokens
