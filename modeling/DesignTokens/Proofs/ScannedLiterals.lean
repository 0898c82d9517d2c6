import DesignTokens.Proofs.JoinedTexts
import DesignTokens.Proofs.LoneTokens

/-!
What the recognizers of lengths, durations and easings take: the texts of a kind whose neighbours
are not in the way. The recognizers differ in the neighbours that they look at, so a literal that is
counted need not stand alone.
-/
namespace DesignTokens

open Text

/-! ### Numerals with a unit -/

/-- A numeral with one of some units behind it. -/
def Measures (units : List Text) (t : Text) : Prop :=
  ∃ n : Numeral, ∃ unit ∈ units, n.IsWritten ∧ t = n.text ++ unit

/-- Units that are not read as a part of the numeral or of each other. -/
structure AreUnits (units : List Text) : Prop where
  head : ∀ unit ∈ units, unit.head?.any fun c => !isDigit c && c != '.'
  apart : ∀ unit ∈ units, ∀ unit' ∈ units, unit <+: unit' → unit = unit'
  joins : ∀ unit ∈ units, unit.dropLast.all Length.joinsNext
  last : ∀ unit ∈ units, unit.getLast?.any fun c => decide (c ∉ opening) && !isBlank c && c != ')'
  flat : ∀ unit ∈ units, '(' ∉ unit

namespace AreUnits

variable {units : List Text} (hu : AreUnits units) {unit rest t : Text}
include hu

theorem ne_nil (h : unit ∈ units) : unit ≠ [] := by
  rintro rfl
  cases hu.head [] h

theorem find?_append (h : unit ∈ units) :
    units.find? (fun u => u.isPrefixOf (unit ++ rest)) = some unit := by
  have found : (units.find? fun u => u.isPrefixOf (unit ++ rest)).isSome :=
    List.find?_isSome.2 ⟨unit, h, List.isPrefixOf_iff_prefix.2 (List.prefix_append _ _)⟩
  obtain ⟨other, found⟩ := Option.isSome_iff_exists.1 found
  have start : other <+: unit ++ rest := List.isPrefixOf_iff_prefix.1
    (List.find?_some (p := fun u : Text => u.isPrefixOf (unit ++ rest)) found)
  have mem := List.mem_of_find?_eq_some found
  rw [found]
  rcases List.prefix_or_prefix_of_prefix start (List.prefix_append unit rest) with first | second
  · rw [hu.apart _ mem _ h first]
  · rw [hu.apart _ h _ mem second]

theorem scan?_append {n : Numeral} (hn : n.IsWritten) (h : unit ∈ units) :
    Numeral.scan? (n.text ++ (unit ++ rest)) = some (n, unit ++ rest) := by
  have head := hu.head unit h
  obtain ⟨c, unit, rfl⟩ := List.exists_cons_of_ne_nil (hu.ne_nil h)
  simp only [List.head?_cons, Option.any_some, Bool.and_eq_true, Bool.not_eq_true',
    bne_iff_ne] at head
  exact Numeral.scan?_text_append hn head.1 (beq_eq_false_iff_ne.2 head.2)

/-- A numeral and a unit are scanned if and only if they are written at the start. -/
theorem scan_iff : (∃ n tail unit, Numeral.scan? t = some (n, tail) ∧
      units.find? (fun u => u.isPrefixOf tail) = some unit ∧ tail.drop unit.length = rest) ↔
    ∃ token, Measures units token ∧ t = token ++ rest := by
  constructor
  · rintro ⟨n, tail, unit, scanned, found, rfl⟩
    obtain ⟨written, rfl⟩ := Numeral.of_scan? scanned
    obtain ⟨rest, rfl⟩ := List.isPrefixOf_iff_prefix.1
      (List.find?_some (p := fun u : Text => u.isPrefixOf tail) found)
    refine ⟨n.text ++ unit, ⟨n, unit, List.mem_of_find?_eq_some found, written, rfl⟩, ?_⟩
    rw [List.drop_left, List.append_assoc]
  · rintro ⟨_, ⟨n, unit, h, written, rfl⟩, rfl⟩
    refine ⟨n, unit ++ rest, unit, ?_, hu.find?_append h, List.drop_left⟩
    rw [List.append_assoc]
    exact hu.scan?_append written h

theorem separate (h : Measures units t) : Separate t := by
  obtain ⟨n, unit, hunit, written, rfl⟩ := h
  refine .of_written written ?_ (hu.flat unit hunit)
  obtain ⟨c, last, hc⟩ := (Option.any_eq_true _ _).1 (hu.last unit hunit)
  simp only [Bool.and_eq_true, decide_eq_true_eq] at hc
  simp [last, hc.1.1]

theorem begins (h : Measures units t) : Begins t := by
  have separate := hu.separate h
  obtain ⟨n, unit, hunit, written, rfl⟩ := h
  obtain ⟨c, text, hn⟩ := List.exists_cons_of_ne_nil written.text_ne_nil
  obtain ⟨d, unit, rfl⟩ := List.exists_cons_of_ne_nil (hu.ne_nil hunit)
  have first := written.mem_text_cases c (by simp [hn])
  rw [hn] at separate ⊢
  refine ⟨written.joinsNext c (by simp [hn]), ?_, fun rest dashes => separate.dashes ?_⟩
  · intro head
    obtain rfl : c = 'v' := Option.some.inj head
    rcases first with digit | other | other
    · cases digit
    · exact absurd other (by decide)
    · exact absurd other (by decide)
  · refine List.prefix_of_prefix_length_le dashes (List.prefix_append _ rest) ?_
    simp
    omega

/-- A numeral goes on up to the last character of its unit. -/
theorem joinsNext_dropLast (h : Measures units t) : ∀ c ∈ t.dropLast, Length.joinsNext c := by
  obtain ⟨n, unit, hunit, written, rfl⟩ := h
  rw [List.dropLast_append_of_ne_nil (hu.ne_nil hunit)]
  exact List.forall_mem_append.2
    ⟨written.joinsNext, List.all_eq_true.1 (hu.joins unit hunit)⟩

theorem joined {a b : Text} (h : Measures units t) (text : t = a ++ b) (ha : a ≠ []) (hb : b ≠ []) :
    a.getLast?.any Length.joinsNext :=
  any_getLast?_of_dropLast (hu.joinsNext_dropLast h) text ha hb

/-- No literal that stands alone starts inside of a numeral with its unit. -/
theorem inside (h : Measures units t) (spelling : Spelling) (literal : Text) :
    Inside (loneToken spelling literal) t := fun _ _ rest text ha hb =>
  loneToken_inside_eq_none (hu.joinsNext_dropLast h) text ha hb rest

theorem solid (h : Measures units t) : ∀ c ∈ t.getLast?, isBlank c = false := by
  obtain ⟨n, unit, hunit, written, rfl⟩ := h
  obtain ⟨c, last, hc⟩ := (Option.any_eq_true _ _).1 (hu.last unit hunit)
  rw [List.getLast?_append_of_ne_nil _ (hu.ne_nil hunit), last]
  simp only [Bool.and_eq_true, Bool.not_eq_true'] at hc
  simpa using hc.1.2

theorem stops (p : Char → Bool) (front : Text) : Stops (Measures units) p front :=
  fun _ _ b _ _ h hne => (hu.separate h).apart b hne (List.suffix_append _ b)

end AreUnits

/-! ### Recognizers -/

namespace Length

/-- The names of the units of the lengths that are counted. -/
def countedUnits : List Text :=
  [LengthUnit.px, .rem, .em, .percent, .vh, .vw].map LengthUnit.name

theorem areUnits : AreUnits countedUnits := by
  constructor <;> decide

theorem scan_counted_iff {t rest : Text} :
    (∃ n unit, scan? [.px, .rem, .em, .percent, .vh, .vw] .exact t = some (n, unit, rest)) ↔
      ∃ token, Measures countedUnits token ∧ t = token ++ rest := by
  rw [← areUnits.scan_iff]
  simp only [scan?, Option.bind_eq_bind, Option.bind_eq_some_iff, countedUnits, List.find?_map,
    Option.map_eq_some_iff]
  constructor
  · rintro ⟨n, unit, ⟨m, tail⟩, scanned, unit', found, text⟩
    cases text
    exact ⟨m, tail, _, scanned, ⟨_, found, rfl⟩, rfl⟩
  · rintro ⟨n, tail, _, scanned, ⟨unit, found, rfl⟩, rfl⟩
    exact ⟨n, unit, (n, tail), scanned, unit, found, rfl⟩

/-- Characters that may not follow a length that is counted. -/
def joinsUnit (c : Char) : Bool := isWord c || c == '%'

theorem scans_candidate : Scans candidate (Measures countedUnits) joinsNext joinsUnit := by
  refine ⟨fun before t k => ?_, fun _ => areUnits.begins⟩
  constructor
  · intro found
    rw [candidate, tokenOf] at found
    split at found
    · rename_i n unit rest scanned
      obtain ⟨token, measures, rfl⟩ := scan_counted_iff.1 ⟨n, unit, scanned⟩
      split at found
      · cases found
      · rename_i free
        rw [Bool.or_eq_true, not_or, Bool.not_eq_true, Bool.not_eq_true] at free
        refine ⟨token, rest, rfl, ?_, measures, free⟩
        rw [← Option.some.inj found]
        simp
    · cases found
  · rintro ⟨token, rest, rfl, rfl, measures, free, next⟩
    obtain ⟨n, unit, scanned⟩ := scan_counted_iff.2 ⟨token, measures, rfl⟩
    have apart : (before.any joinsNext || nextIs (fun c => isWord c || c == '%') rest) = false := by
      rw [free]
      exact next
    rw [candidate, tokenOf, scanned]
    simp [apart]

end Length

namespace Duration

theorem areUnits : AreUnits unitNames := by
  constructor <;> decide

/-- Characters after which a duration does not start. -/
def joinsNumber (c : Char) : Bool := isWord c || c == '.'

theorem scans_token : Scans token (Measures unitNames) joinsNumber isWord := by
  refine ⟨fun before t k => ?_, fun _ => areUnits.begins⟩
  constructor
  · intro found
    obtain ⟨⟨n, tail⟩, scanned, found⟩ := Option.bind_eq_some_iff.1 found
    obtain ⟨unit, hunit, found⟩ := Option.bind_eq_some_iff.1 found
    obtain ⟨text, measures, rfl⟩ := areUnits.scan_iff.1 ⟨n, tail, unit, scanned, hunit, rfl⟩
    dsimp only at found
    split at found
    · cases found
    · rename_i free
      rw [Bool.or_eq_true, not_or, Bool.not_eq_true, Bool.not_eq_true] at free
      refine ⟨text, _, rfl, ?_, measures, free⟩
      rw [← Option.some.inj found]
      simp
  · rintro ⟨text, rest, rfl, rfl, measures, free, next⟩
    obtain ⟨n, tail, unit, scanned, hunit, rest_eq⟩ :=
      areUnits.scan_iff.2 ⟨text, measures, rfl⟩
    have apart : ¬ (before.any (fun c => isWord c || c == '.') ||
        nextIs isWord (tail.drop unit.length)) = true := by
      rw [rest_eq, next, Bool.or_false]
      exact Bool.eq_false_iff.1 free
    refine Option.bind_eq_some_iff.2 ⟨_, scanned, Option.bind_eq_some_iff.2 ⟨_, hunit, ?_⟩⟩
    dsimp only
    rw [if_neg apart, rest_eq]
    simp

end Duration

namespace Easing

/-- The texts of easings: a keyword, or a call up to its first closing parenthesis. -/
def IsEasing (t : Text) : Prop :=
  t ∈ keywords ∨ ∃ head ∈ calls, ∃ args, ')' ∉ args ∧ t = head ++ args ++ [')']

theorem begins {t : Text} (h : IsEasing t) : Begins t := by
  have heads : (keywords ++ calls).all fun k =>
      k.head?.any fun c => Length.joinsNext c && c != 'v' && c != '-' := by decide
  have head : t.head?.any fun c => Length.joinsNext c && c != 'v' && c != '-' := by
    rcases h with keyword | ⟨head, hh, args, -, rfl⟩
    · exact List.all_eq_true.1 heads t (List.mem_append_left _ keyword)
    · have first := List.all_eq_true.1 heads head (List.mem_append_right _ hh)
      cases head with
      | nil => cases first
      | cons c head => exact first
  cases t with
  | nil => cases head
  | cons c t =>
      simp only [List.head?_cons, Option.any_some, Bool.and_eq_true, bne_iff_ne] at head
      refine ⟨head.1.1, by simpa using head.1.2, fun rest dashes => ?_⟩
      exact head.2 (List.cons_prefix_cons.1 dashes).1.symm

theorem solid {t : Text} (h : IsEasing t) : ∀ c ∈ t.getLast?, isBlank c = false := by
  rcases h with keyword | ⟨head, hh, args, -, rfl⟩
  · have lasts : keywords.all fun k => k.getLast?.all (!isBlank ·) := by decide
    intro c last
    have plain := List.all_eq_true.1 lasts t keyword
    rw [Option.mem_def.1 last] at plain
    simpa using plain
  · intro c last
    rw [List.getLast?_concat] at last
    cases last
    rfl

theorem takeWhile_arguments {args : Text} (flat : ')' ∉ args) (rest : Text) :
    (args ++ ')' :: rest).takeWhile (· != ')') = args :=
  takeWhile_append_of_nextIs (fun c hc => by simpa using ne_of_mem_of_not_mem hc flat) rfl

theorem mem_lengths_iff {t : Text} {n : Nat} : n ∈ lengths t ↔
    ∃ token rest, t = token ++ rest ∧ token.length = n ∧ IsEasing token := by
  rw [lengths, List.mem_append, List.mem_filterMap, List.mem_filterMap]
  constructor
  · rintro (⟨keyword, hk, found⟩ | ⟨head, hh, found⟩)
    · rw [keywordLength?] at found
      split at found
      · rename_i start
        obtain ⟨rest, rfl⟩ := List.isPrefixOf_iff_prefix.1 start
        exact ⟨keyword, rest, rfl, Option.some.inj found, .inl hk⟩
      · cases found
    · obtain ⟨args, rest, flat, rfl, rfl⟩ := eq_of_callLength? found
      exact ⟨head ++ args ++ [')'], rest, by simp, by simp [Nat.add_assoc],
        .inr ⟨head, hh, args, flat, rfl⟩⟩
  · rintro ⟨token, rest, rfl, rfl, keyword | ⟨head, hh, args, flat, rfl⟩⟩
    · refine .inl ⟨token, keyword, ?_⟩
      rw [keywordLength?, if_pos (List.isPrefixOf_iff_prefix.2 (List.prefix_append _ _))]
    · refine .inr ⟨head, hh, ?_⟩
      have text : head ++ args ++ [')'] ++ rest = head ++ (args ++ ')' :: rest) := by simp
      rw [text, callLength?, if_pos (List.isPrefixOf_iff_prefix.2 (List.prefix_append _ _))]
      simp only [List.drop_left, takeWhile_arguments flat]
      rw [if_pos (by simp), List.length_append, List.length_append, List.length_singleton]

/-- Two easings at one place are the same if no name goes on behind them. -/
theorem eq_of_append_eq {token other rest rest' : Text} (h : IsEasing token) (h' : IsEasing other)
    (text : token ++ rest = other ++ rest') (next : nextIs isNamePart rest = false)
    (next' : nextIs isNamePart rest' = false) : token = other := by
  have longer {token other a rest : Text} (h : other ∈ keywords) (text : other = token ++ a)
      (next : nextIs isNamePart (a ++ rest) = false) : other = token := by
    have parts : keywords.all fun k => k.all isNamePart := by decide
    cases a with
    | nil => rw [text, List.append_nil]
    | cons c a =>
        have part : isNamePart c :=
          List.all_eq_true.1 (List.all_eq_true.1 parts other h) c (by simp [text])
        rw [List.cons_append, nextIs, part] at next
        cases next
  have apart : keywords.all fun k => calls.all fun head =>
      !k.isPrefixOf head && !head.isPrefixOf k := by decide
  have unlike {keyword head : Text} (hk : keyword ∈ keywords) (hh : head ∈ calls)
      {a b : Text} (text : keyword ++ a = head ++ b) : False := by
    have none := List.all_eq_true.1 (List.all_eq_true.1 apart keyword hk) head hh
    simp only [Bool.and_eq_true, Bool.not_eq_true', Bool.eq_false_iff, ne_eq,
      List.isPrefixOf_iff_prefix] at none
    exact (List.prefix_or_prefix_of_prefix (List.prefix_append keyword a)
      (text ▸ List.prefix_append head b)).elim none.1 none.2
  rcases h with keyword | ⟨head, hh, args, flat, rfl⟩ <;>
    rcases h' with keyword' | ⟨head', hh', args', flat', rfl⟩
  · rcases List.append_eq_append_iff.1 text with ⟨a, same, rfl⟩ | ⟨a, same, rfl⟩
    · exact (longer keyword' same next).symm
    · exact longer keyword same next'
  · simp only [List.append_assoc] at text
    exact (unlike keyword hh' text).elim
  · simp only [List.append_assoc] at text
    exact (unlike keyword' hh text.symm).elim
  · simp only [List.append_assoc, List.singleton_append] at text
    have heads : ∀ head ∈ calls, ∀ head' ∈ calls, head <+: head' → head = head' := by decide
    obtain rfl : head = head' := by
      rcases List.prefix_or_prefix_of_prefix (List.prefix_append head _)
        (text ▸ List.prefix_append head' _) with first | second
      · exact heads _ hh _ hh' first
      · exact (heads _ hh' _ hh second).symm
    have arguments := congrArg (List.takeWhile (· != ')')) (List.append_cancel_left text)
    rw [takeWhile_arguments flat, takeWhile_arguments flat'] at arguments
    rw [arguments]

theorem scans_token : Scans token IsEasing isNamePart isNamePart := by
  refine ⟨fun before t n => ?_, fun _ => begins⟩
  constructor
  · intro found
    rw [token] at found
    split at found
    · cases found
    · rename_i free
      obtain ⟨text, rest, rfl, rfl, easing⟩ :=
        mem_lengths_iff.1 (List.mem_of_find?_eq_some found)
      have next := List.find?_some found
      rw [List.drop_left, Bool.not_eq_true'] at next
      exact ⟨text, rest, rfl, rfl, easing, Bool.eq_false_iff.2 free, next⟩
  · rintro ⟨text, rest, rfl, rfl, easing, free, next⟩
    have listed := mem_lengths_iff.2 ⟨text, rest, rfl, rfl, easing⟩
    have found : ((lengths (text ++ rest)).find? fun n =>
        !nextIs isNamePart ((text ++ rest).drop n)).isSome :=
      List.find?_isSome.2 ⟨_, listed, by simp [next]⟩
    obtain ⟨n, found⟩ := Option.isSome_iff_exists.1 found
    obtain ⟨text', rest', same, rfl, easing'⟩ :=
      mem_lengths_iff.1 (List.mem_of_find?_eq_some found)
    have next' := List.find?_some found
    rw [same, List.drop_left, Bool.not_eq_true'] at next'
    rw [token, if_neg (Bool.eq_false_iff.1 free), found,
      eq_of_append_eq easing' easing same.symm next' next]

end Easing

end DesignTokens
