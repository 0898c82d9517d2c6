import DesignTokens.Proofs.FontReferences
import DesignTokens.Proofs.FontValues

/-!
A plain `font` value is rewritten part by part: the weight is the first word, the size is the first
after it, the line height follows the size, and the family ends the value, blanks aside. A reference
that was put in for the weight has neither a blank nor the start of a size, so it is passed over.
-/
namespace DesignTokens

open Text

namespace FontShorthand

theorem cutLast?_eq_none {part t : Text} (h : ¬ part <:+: t) : cutLast? part t = none := by
  cases hc : cutLast? part t with
  | none => rfl
  | some cut => exact absurd ⟨cut.1, cut.2, (eq_of_cutLast? hc).symm⟩ h

/-- A text that does not end with a blank does not occur where it is cut short and blanks follow. -/
theorem not_infix_append_blanks {part short blanks : Text} {d : Char} (hd : part.getLast? = some d)
    (solid : isBlank d = false) (hshort : short.length < part.length)
    (hb : ∀ c ∈ blanks, isBlank c) : ¬ part <:+: short ++ blanks := by
  rintro ⟨a, b, h⟩
  rcases List.append_eq_append_iff.1 h with ⟨c, rfl, -⟩ | ⟨c, long, rfl⟩
  · simp only [List.length_append] at hshort
    omega
  · have hne : c ≠ [] := by
      rintro rfl
      have length := congrArg List.length long
      simp only [List.length_append, List.length_nil] at length
      omega
    have part_ne : part ≠ [] := by
      rintro rfl
      cases hd
    have last : c.getLast? = some d := by
      have ends := congrArg List.getLast? long
      rwa [List.getLast?_append_of_ne_nil _ part_ne, List.getLast?_append_of_ne_nil _ hne, hd,
        eq_comm] at ends
    have blank := hb d (List.mem_append_left _ (List.mem_of_getLast? last))
    rw [solid] at blank
    cases blank

/-- The last occurrence of a text that does not end with a blank is the one before final blanks. -/
theorem cutLast?_append {part blanks : Text} {d : Char} (hd : part.getLast? = some d)
    (solid : isBlank d = false) (hb : ∀ c ∈ blanks, isBlank c) (front : Text) :
    cutLast? part (front ++ (part ++ blanks)) = some (front, blanks) := by
  induction front with
  | nil =>
      cases part with
      | nil => cases hd
      | cons c part =>
          have later : ¬ c :: part <:+: part ++ blanks :=
            not_infix_append_blanks hd solid (by simp) hb
          have start : (c :: part).isPrefixOf (c :: (part ++ blanks)) :=
            List.isPrefixOf_iff_prefix.2 (List.prefix_append (c :: part) blanks)
          rw [List.nil_append, List.cons_append, cutLast?, cutLast?_eq_none later, if_pos start]
          simp
  | cons c front ih =>
      rw [List.cons_append, cutLast?, ih]

theorem afterLiteral?_append (literal : Text) {rest : Text}
    (h : nextIs joinsPrevious rest = false) :
    afterLiteral? literal (literal ++ rest) = some rest := by
  rw [afterLiteral?, isPrefixNoCase_of_start (List.prefix_append literal rest), List.drop_left, h]
  rfl

theorem replaceInnerSize_append {heights : TokenMap} {literal name front : Text}
    (h : ∀ c ∈ front, isBlank c = false) (rest : Text) :
    replaceInnerSize heights literal name (front ++ rest) =
      front ++ replaceInnerSize heights literal name rest := by
  induction front with
  | nil => rfl
  | cons c front ih =>
      have solid := h c List.mem_cons_self
      rw [List.cons_append, replaceInnerSize, solid, ih fun c hc => h c (.tail _ hc)]
      rfl

end FontShorthand

namespace Value

theorem collapsed_of_solid {t : Text} (hne : t ≠ []) (h : ∀ c ∈ t, isBlank c = false) :
    collapsed t = t ∧ collapsed (' ' :: t) = t := by
  have single := words_of_solid hne h
  have skipped : words (' ' :: t) = words t := words_cons_of_isBlank rfl t
  rw [collapsed, collapsed, skipped, single]
  exact ⟨rfl, rfl⟩

/-- A list of family names is in normal form. -/
theorem fontFamily_join {names : List Text} (hn : ∀ t ∈ names, IsFamilyName t) :
    fontFamily (join ", ".toList names) = join ", ".toList names := by
  have solid (t : Text) (ht : t ∈ names) :=
    collapsed_of_solid (hn t ht).ne_nil fun c hc => ((hn t ht).letterClasses c hc).solid
  have plain : ∀ t ∈ names, ',' ∉ t := fun t ht comma =>
    ((hn t ht).letterClasses ',' comma).ne_comma rfl
  cases names with
  | nil => rfl
  | cons name names =>
      have first := (solid name List.mem_cons_self).1
      have others : names.map (collapsed ∘ (' ' :: ·)) = names := by
        conv_rhs => rw [← List.map_id names]
        exact List.map_congr_left fun t ht => (solid t (.tail _ ht)).2
      have blank : ',' ∉ [' '] := by decide
      have pieces : splitOn ',' (join ", ".toList (name :: names)) =
          name :: names.map (' ' :: ·) := splitOn_join blank plain
      rw [fontFamily, pieces, List.map_cons, List.map_map, first, others]

theorem not_isWideKeyword_join {names : List Text} (hne : names ≠ [])
    (hn : ∀ t ∈ names, IsFamilyName t) : isWideKeyword (join ", ".toList names) = false := by
  obtain ⟨⟨c, t, ht, first⟩, d, hd, last⟩ := join_ends hne hn
  have trimmed : trim (join ", ".toList names) = join ", ".toList names := by
    have ends := trim_append_blanks (t := join ", ".toList names) (by rw [ht]; exact first.solid)
      (by rw [hd]; exact last.solid) (List.forall_mem_nil _)
    rwa [List.append_nil] at ends
  have ascii : (join ", ".toList names).all fun c => decide (c.toNat < 128) :=
    List.all_eq_true.2 fun c hc =>
      decide_eq_true (lt_128_of_isFontChar (isFontChar_of_mem_join hn c hc))
  rw [isWideKeyword, trimmed, lower, if_pos ascii, ← Bool.not_eq_true, List.contains_iff_mem]
  intro keyword
  cases names with
  | nil => exact hne rfl
  | cons name names =>
      cases names with
      | nil => exact (hn name List.mem_cons_self).free (.tail _ (.tail _ keyword))
      | cons name' names =>
          have commaless : ∀ keyword ∈ wideKeywords, ',' ∉ keyword := by decide
          refine commaless _ keyword (List.mem_map.2 ⟨',', ?_, rfl⟩)
          simp [join]

end Value

/-- The only entry of a map is looked up by its key. -/
theorem TokenMap.reference?_of_single {m : TokenMap} {literal name : Text}
    (h : m.entries = [(literal, name)]) (hname : TokenName.Valid name) :
    m.reference? literal = some (reference name) := by
  have written : name.isEmpty = false := by
    obtain ⟨rest, rfl⟩ := hname.dashes
    rfl
  have found : m.get? literal = some name := by simp [OrderedMap.get?, h]
  rw [reference?, found]
  simp [Option.filter, written]

namespace FontValue

open FontShorthand

/-- Tables of tokens in which the parts of a value, and no others, have some names. -/
structure Named (v : FontValue) (tokens : TokenTables) (weight size height family : Text) :
    Prop where
  weights : (tokens.table .fontWeights).entries = v.weight.toList.map (·, weight)
  sizes : (tokens.table .fontSizes).entries = [(v.sizeText, size)]
  heights : (tokens.table .lineHeights).entries = v.lineHeight.toList.map fun l => (l.text, height)
  families : (tokens.table .fontFamilies).entries = [(v.family, family)]
  valid : ∀ name ∈ [weight, size, height, family], TokenName.Valid name

/-- The value with names of its parts as references. -/
def referenceText (v : FontValue) (weight size height family : Text) : Text :=
  (v.weight.elim [] fun _ => reference weight ++ [' ']) ++ (reference size ++
    ((v.lineHeight.elim [] fun _ => " / ".toList ++ reference height) ++ ' ' :: reference family))

variable {v : FontValue} {tokens : TokenTables} {weight size height family : Text}

theorem startsWithWord_weight {w : Text} (hw : w ∈ FontShorthand.weights) (rest : Text) :
    startsWithWord w none (w ++ ' ' :: rest) := by
  have start := isPrefixNoCase_of_start (List.prefix_append w (' ' :: rest))
  have table : FontShorthand.weights.all fun w =>
      nextIs isWord w && w.getLast?.any isWord := by decide +kernel
  have ends := List.all_eq_true.1 table w hw
  rw [Bool.and_eq_true] at ends
  have first : nextIs isWord (w ++ ' ' :: rest) := by
    cases w with
    | nil => cases ends.1
    | cons c t => exact ends.1
  have blank : nextIs isWord (' ' :: rest) = false := rfl
  simp only [startsWithWord, List.splitAt_eq, List.take_left, List.drop_left, atBoundary, start,
    first, Option.or_none, ends.2, blank]
  rfl

/-- No size begins where a reference does. -/
theorem afterLiteral?_reference (v : FontValue) (name rest : Text) :
    afterLiteral? v.sizeText (reference name ++ rest) = none := by
  obtain ⟨c, t, ht⟩ := List.exists_cons_of_ne_nil v.size_plain.isWritten.text_ne_nil
  have other : sameLetter c 'v' = false := by
    have first := v.size_plain.mem_text_cases c (ht ▸ List.mem_cons_self)
    have table := forall_of_lt_128 (p := fun c => !(c.isDigit || c == '.') || !sameLetter c 'v')
      (by decide +kernel) (lt_128_of_isFontChar (v.size_plain.isFontChar_of_mem_text c
        (ht ▸ List.mem_cons_self)))
    have number : (c.isDigit || c == '.') = true := by simpa using first
    simpa only [number, Bool.not_true, Bool.false_or, Bool.not_eq_true'] using table
  have missing : isPrefixNoCase v.sizeText (reference name ++ rest) = false := by
    have head : reference name ++ rest = 'v' :: ("ar(".toList ++ name ++ [')'] ++ rest) := rfl
    rw [sizeText, ht, head, List.cons_append, isPrefixNoCase, other]
    rfl
  rw [afterLiteral?, missing]
  rfl

theorem nextIs_joinsPrevious_heightText (v : FontValue) (rest : Text) :
    nextIs joinsPrevious (v.heightText ++ ' ' :: rest) = false := by
  cases h : v.lineHeight with
  | none =>
      rw [v.heightText_none h]
      rfl
  | some l =>
      rw [v.heightText_some h]
      rfl

section Named

variable (n : v.Named tokens weight size height family)
include n

/-- A reference has no blanks. -/
theorem Named.solid_reference :
    ∀ name ∈ [weight, size, height, family], ∀ c ∈ reference name, isBlank c = false := by
  intro name hname c hc
  cases blank : isBlank c with
  | false => rfl
  | true => exact absurd hc (DesignTokens.notMem_reference n.valid hname (separates_of_isBlank blank))

theorem Named.weighted_text (rest : Text) :
    weighted (tokens.table .fontWeights).entries (v.weightText ++ rest) =
      (v.weight.elim [] fun _ => reference weight ++ [' ']) ++ rest := by
  rw [n.weights, weightText]
  cases h : v.weight with
  | none => rfl
  | some w =>
      have start := startsWithWord_weight (v.weight_mem w h) rest
      simp only [Option.elim_some, List.append_assoc, List.singleton_append]
      rw [Option.toList_some, List.map_singleton, weighted, List.foldl_cons, List.foldl_nil,
        replaceWord_of_startsWithWord start, List.drop_left]

theorem Named.sizeText_heightText {rest : Text} (hb : nextIs isBlank rest = false)
    (hs : nextIs (· == '/') rest = false) (name : Text) :
    FontShorthand.sizeText (tokens.table .lineHeights) name (v.heightText ++ ' ' :: rest) =
      reference name ++ ((v.lineHeight.elim [] fun _ => " / ".toList ++ reference height) ++
        ' ' :: rest) := by
  rw [FontShorthand.sizeText, v.lineHeight?_heightText hb hs]
  cases h : v.lineHeight with
  | none =>
      rw [v.heightText_none h]
      rfl
  | some l =>
      have heights := n.heights
      rw [h] at heights
      have found := TokenMap.reference?_of_single heights (n.valid height (by simp))
      simp [found]

/-- The size is passed over to wherever the weight is, and replaced with its line height. -/
theorem Named.replaceSize_text {rest : Text} (hb : nextIs isBlank rest = false)
    (hs : nextIs (· == '/') rest = false) :
    replaceSize (tokens.table .lineHeights) v.sizeText size
        ((v.weight.elim [] fun _ => reference weight ++ [' ']) ++
          (v.sizeText ++ (v.heightText ++ ' ' :: rest))) =
      (v.weight.elim [] fun _ => reference weight ++ [' ']) ++ (reference size ++
        ((v.lineHeight.elim [] fun _ => " / ".toList ++ reference height) ++ ' ' :: rest)) := by
  have tail := afterLiteral?_append v.sizeText (v.nextIs_joinsPrevious_heightText rest)
  have sized := n.sizeText_heightText hb hs size
  cases h : v.weight with
  | none =>
      simp only [Option.elim_none, List.nil_append]
      rw [replaceSize, tail]
      exact sized
  | some w =>
      have solid := n.solid_reference weight (by simp)
      have blank : isBlank ' ' := rfl
      simp only [Option.elim_some, List.append_assoc, List.singleton_append]
      rw [replaceSize, v.afterLiteral?_reference, replaceInnerSize_append solid, replaceInnerSize,
        if_pos blank, tail]
      simp only [sized]

/-- A plain value is rewritten part by part. -/
theorem Named.substituteWith_text {blanks : Text} (hb : ∀ c ∈ blanks, isBlank c) :
    substituteWith (plainTemplates tokens) tokens (v.text ++ blanks) =
      v.referenceText weight size height family ++ blanks := by
  obtain ⟨⟨c, t, ht, first⟩, d, hd, last⟩ := v.family_ends
  have solid : nextIs isBlank (v.family ++ blanks) = false := by
    rw [ht]
    exact first.solid
  have slash : nextIs (· == '/') (v.family ++ blanks) = false := by
    rw [ht]
    simp [nextIs, first.ne_slash]
  have whole : v.text ++ blanks = v.weightText ++ (v.sizeText ++ (v.heightText ++
      ' ' :: (v.family ++ blanks))) := by simp [text]
  have found : (tokens.table .fontFamilies).reference? (Value.fontFamily v.family) =
      some (reference family) := by
    rw [FontValue.family, Value.fontFamily_join v.family_names]
    exact TokenMap.reference?_of_single n.families (n.valid family (by simp))
  rw [substituteWith_eq, v.family?_text hb, whole, n.weighted_text, substituteOthers, n.sizes]
  simp only [List.foldl_cons, List.foldl_nil, Option.elim_some]
  let front := (v.weight.elim [] fun _ => reference weight ++ [' ']) ++ (reference size ++
    ((v.lineHeight.elim [] fun _ => " / ".toList ++ reference height) ++ [' ']))
  have sized := n.replaceSize_text solid slash
  have regroup (last : Text) : (v.weight.elim [] fun _ => reference weight ++ [' ']) ++
      (reference size ++ ((v.lineHeight.elim [] fun _ => " / ".toList ++ reference height) ++
        ' ' :: last)) = front ++ last := by simp [front]
  have blank : blanks.all isBlank := List.all_eq_true.2 hb
  rw [regroup] at sized
  rw [sized, replaceFamily, found, cutLast?_append hd last.solid hb front, referenceText, regroup]
  simp only [blank, if_true]

end Named

end FontValue

end DesignTokens
