import DesignTokens.Proofs.CaseParts
import DesignTokens.Proofs.ConvertedLengths
import DesignTokens.Proofs.CountedTokens

/-!
The conversion of a value with and without a look at its calls. The calls cut a value before a name,
behind the parenthesis after it, and around the parenthesis that closes it. No length goes on over a
cut, and a length that ends in front of a name ends with a `%`; where no such length stands, the
value can be converted as if it held no calls. Main statement: `convert_eq_mapTokens`.
-/
namespace DesignTokens

namespace Text

/-! ### Scans of a text that is cut -/

section Cuts

variable {r : Recognizer} {before : Option Char} {s t : Text}

/-- What is recognized in front of a place in a text is recognized whether or not the text goes on
there. -/
def Ends (r : Recognizer) (before : Option Char) (s t : Text) : Prop :=
  ∀ a b, s = a ++ b → b ≠ [] →
    r (a.getLast?.or before) (b ++ t) = r (a.getLast?.or before) b

theorem Ends.tail {c : Char} (h : Ends r before (c :: s) t) : Ends r (some c) s t := by
  intro a b text hne
  have later := h (c :: a) b (congrArg (c :: ·) text) hne
  rwa [getLast?_cons_or] at later

theorem piecesFrom_append_of_ends (hr : Bounded r) {skip : Nat} (inside : skip ≤ s.length)
    (h : Ends r before s t) : piecesFrom r before skip (s ++ t) =
      piecesFrom r before skip s ++ piecesFrom r (s.getLast?.or before) 0 t := by
  induction s generalizing before skip with
  | nil =>
      obtain rfl := Nat.le_zero.1 inside
      rfl
  | cons c s ih =>
      rw [getLast?_cons_or]
      cases skip with
      | succ skip => exact ih (Nat.le_of_succ_le_succ inside) h.tail
      | zero =>
          have first : r before (c :: (s ++ t)) = r before (c :: s) := h [] (c :: s) rfl (by simp)
          rw [List.cons_append, piecesFrom, piecesFrom, first]
          split
          · rename_i n taken
            have short : n ≤ s.length := Nat.le_of_succ_le_succ (hr _ _ _ taken)
            rw [ih short h.tail, List.take_append_of_le_length short]
            rfl
          · rw [ih (Nat.zero_le _) h.tail]
            rfl

theorem mapFrom_append_of_ends (hr : Bounded r) (f : Text → Text) (h : Ends r before s t) :
    mapFrom r f before (s ++ t) = mapFrom r f before s ++ mapFrom r f (s.getLast?.or before) t := by
  rw [mapFrom, piecesFrom_append_of_ends hr (Nat.zero_le _) h, List.flatMap_append]
  rfl

end Cuts

/-! ### Words in any letter case -/

theorem containsNoCase_iff {part t : Text} :
    containsNoCase part t ↔ ∃ w, Spells part w ∧ w <:+: t := by
  constructor
  · intro h
    induction t with
    | nil =>
        obtain rfl : part = [] := by simpa [containsNoCase] using h
        exact ⟨[], ⟨rfl, rfl⟩, List.infix_rfl⟩
    | cons c t ih =>
        rw [containsNoCase, Bool.or_eq_true] at h
        rcases h with start | later
        · exact ⟨_, .take start, (List.take_prefix _ _).isInfix⟩
        · obtain ⟨w, spells, inside⟩ := ih later
          exact ⟨w, spells, inside.trans (List.suffix_cons c t).isInfix⟩
  · rintro ⟨w, spells, front, back, rfl⟩
    refine containsNoCase_of_drop (i := front.length) ?_
    rw [List.append_assoc, List.drop_left]
    exact spells.isPrefixNoCase_append back

theorem containsNoCase_mono {part s t : Text} (inside : s <:+: t) (h : containsNoCase part s) :
    containsNoCase part t := by
  obtain ⟨w, spells, infix_s⟩ := containsNoCase_iff.1 h
  exact containsNoCase_iff.2 ⟨w, spells, infix_s.trans inside⟩

/-- Digits have no letter case. -/
theorem letterClass_of_isDigit {c : Char} (h : isDigit c) : letterClass c = c := by
  by_cases ascii : c.toNat < 128
  · have table := forall_of_lt_128 (p := fun c => !isDigit c || letterClass c == c)
      (by decide +kernel) ascii
    simpa [h] using table
  · have lowered := lowerChar_of_isDigit h
    rw [isDigit, digit?, if_neg ascii] at h
    obtain ⟨first, hz, k, hk, hc⟩ := exists_first_of_digitIn h
    have varied : variantIn letterVariants c.toNat = c.toNat := by
      have apart : digitZeros.all fun first => letterVariants.all fun v =>
          v.1 < first || first + 9 < v.1 := by decide +kernel
      rcases variantIn_cases letterVariants c.toNat with same | ⟨v, hv, key, -⟩
      · exact same
      · have := List.all_eq_true.1 (List.all_eq_true.1 apart first hz) v hv
        simp only [Bool.or_eq_true, decide_eq_true_eq] at this
        omega
    rw [letterClass, if_neg ascii, lowered, varied, Char.ofNat_toNat]

end Text

open Text

/-! ### Lengths at a cut -/

namespace Length

variable {before : Option Char} {n : Numeral} {u : LengthUnit} {w t : Text}

theorem bounded_convertible : Bounded convertible := by
  intro before t k taken
  obtain ⟨-, n, u, w, rest, -, rfl, rfl, -⟩ := convertible_eq_some_iff.1 taken
  simp

/-- A length begins with a character of a numeral. -/
theorem convertible_of_head {c : Char} (h : ¬ (isDigit c ∨ c = '.' ∨ c = '-')) :
    convertible before (c :: t) = none := by
  refine Option.eq_none_iff_forall_ne_some.2 fun k taken => ?_
  obtain ⟨-, n, u, _, rest, ⟨spelled, written, -, -⟩, text, -, -⟩ := convertible_eq_some_iff.1 taken
  obtain ⟨d, number, hn⟩ := List.exists_cons_of_ne_nil written.text_ne_nil
  obtain ⟨rfl, -⟩ : c = d ∧ _ := List.cons.inj (by simpa [hn] using text)
  exact h (written.mem_text_cases c (by simp [hn]))

/-- The character before a text does not matter if a length could start behind it. -/
theorem mapFrom_of_apart (f : Text → Text) (h : before.any joinsNext = false) :
    mapFrom convertible f before t = mapFrom convertible f none t := by
  have same (t : Text) : convertible before t = convertible none t := by
    rw [convertible, tokenOf, tokenOf, h]
    rfl
  cases t with
  | nil => rfl
  | cons c t => rw [mapFrom, mapFrom, piecesFrom, piecesFrom, same]

/-- A text may be cut off behind a length that does not go on there. -/
theorem convertible_append {b : Text}
    (within : ∀ n u w, Writes n u (b ++ w) → w <+: t → w = [])
    (last : ∀ n u, Writes n u b → nextIs (fun c => isWord c || c == '%') t = false) :
    convertible before (b ++ t) = convertible before b := by
  refine Option.ext fun k => ?_
  rw [convertible_eq_some_iff, convertible_eq_some_iff]
  refine and_congr_right fun _ => ?_
  constructor
  · rintro ⟨n, u, w, rest, writes, text, rfl, stop⟩
    rcases List.append_eq_append_iff.1 text with ⟨more, rfl, after⟩ | ⟨back, rfl, rfl⟩
    · obtain rfl := within n u more writes ⟨rest, after.symm⟩
      rw [List.append_nil] at writes
      exact ⟨n, u, b, [], writes, by simp, by simp, rfl⟩
    · refine ⟨n, u, w, back, writes, rfl, rfl, ?_⟩
      cases back with
      | nil => rfl
      | cons c back => exact stop
  · rintro ⟨n, u, w, back, writes, rfl, rfl, stop⟩
    refine ⟨n, u, w, back ++ t, writes, List.append_assoc _ _ _, rfl, ?_⟩
    cases back with
    | nil => exact last n u (by rwa [List.append_nil])
    | cons c back => exact stop

/-- A length of which a part ends with no character of a word goes on with a numeral. -/
theorem Writes.cut {b : Text} {c : Char} (h : Writes n u (b ++ c :: w)) (hne : b ≠ [])
    (edge : b.getLast?.any isWord = false) : isDigit c ∨ c = '.' ∨ c = '-' := by
  generalize text : b ++ c :: w = whole at h
  obtain ⟨spelled, written, known, spells⟩ := h
  have whole_number : b ≠ n.text := by
    rintro rfl
    obtain ⟨d, last, digit⟩ := (Option.any_eq_true _ _).1 written.getLast?_text
    simp [last, isWord_of_isDigit digit] at edge
  rcases List.append_eq_append_iff.1 text with ⟨number, hn, after⟩ | ⟨unit, rfl, hs⟩
  · cases number with
    | nil => exact absurd (by simpa using hn.symm) whole_number
    | cons d number =>
        obtain ⟨rfl, -⟩ := List.cons.inj after
        exact written.mem_text_cases c (by simp [hn])
  · have unit_ne : unit ≠ [] := by
      rintro rfl
      exact whole_number (List.append_nil _)
    rw [List.getLast?_append_of_ne_nil _ unit_ne, List.getLast?_eq_some_getLast unit_ne] at edge
    have mem : unit.getLast unit_ne ∈ spelled := hs ▸ List.mem_append_left _ (List.getLast_mem _)
    obtain ⟨a, ha, letter⟩ := LengthUnit.letters_of_spells known spells _ mem
    rcases letter.word with word | rfl
    · rw [Option.any_some, word] at edge
      cases edge
    · -- No unit goes on behind a `%`.
      have single : ∀ u ∈ LengthUnit.known, '%' ∈ u.name → u.name.length = 1 := by decide
      have long := congrArg List.length hs
      have := List.length_pos_of_ne_nil unit_ne
      rw [spells.length_eq, single u known ha, List.length_append, List.length_cons] at long
      omega

/-- A length ends with a character of a word or with a `%`. -/
theorem Writes.exists_last (h : Writes n u w) :
    ∃ c, w.getLast? = some c ∧ (isWord c ∨ sameLetter '%' c) := by
  obtain ⟨spelled, written, known, spells⟩ := h
  have names : ∀ u ∈ LengthUnit.known, u.name ≠ [] := by decide
  have hne : spelled ≠ [] := fun nil => names u known <|
    List.eq_nil_of_length_eq_zero (by rw [← spells.length_eq, nil]; rfl)
  refine ⟨spelled.getLast hne, ?_, ?_⟩
  · rw [List.getLast?_append_of_ne_nil _ hne, List.getLast?_eq_some_getLast hne]
  · obtain ⟨a, -, letter⟩ := LengthUnit.letters_of_spells known spells _ (List.getLast_mem hne)
    refine letter.word.imp_right ?_
    rintro rfl
    exact letter.same

theorem Writes.notMem_close (h : Writes n u w) : ')' ∉ w := by
  obtain ⟨spelled, written, known, spells⟩ := h
  intro mem
  rcases List.mem_append.1 mem with number | unit
  · rcases written.mem_text_cases _ number with digit | point | minus
    · cases digit
    · cases point
    · cases minus
  · have table : LengthUnit.known.all fun u => u.name.all fun a => !sameLetter a ')' := by decide
    obtain ⟨a, ha, letter⟩ := LengthUnit.letters_of_spells known spells _ unit
    have other := List.all_eq_true.1 (List.all_eq_true.1 table u known) a ha
    rw [letter.same] at other
    cases other

end Length

/-! ### The cuts of a conversion -/

namespace Conversion

variable {before : Option Char} {head t front tail inner rest value : Text}

/-- The name of a call with its parenthesis, in some letter case. -/
def IsHead (head : Text) : Prop := ∃ name ∈ callNames, Spells name head

/-- No call directly follows a `%`. -/
def CallsApart (value : Text) : Prop :=
  ∀ name ∈ callNames, containsNoCase ('%' :: name) value = false

instance (value : Text) : Decidable (CallsApart value) :=
  inferInstanceAs (Decidable (∀ name ∈ callNames, _))

theorem CallsApart.of_isInfix (h : CallsApart value) (inside : t <:+: value) : CallsApart t := by
  intro name hname
  have absent := h name hname
  rw [Bool.eq_false_iff] at absent ⊢
  exact fun found => absent (containsNoCase_mono inside found)

theorem of_cutCall? (h : cutCall? before t = some (front, head, tail)) :
    IsHead head ∧ (front.getLast?.or before).any isWord = false := by
  induction t generalizing before front with
  | nil => cases h
  | cons c t ih =>
      rw [cutCall?] at h
      split at h
      · rename_i called
        cases h
        rw [callHead?] at called
        split_ifs at called with joined
        obtain ⟨name, found, rfl⟩ := Option.map_eq_some_iff.1 called
        have start := List.find?_some (p := fun name => isPrefixNoCase name (c :: t)) found
        exact ⟨⟨name, List.mem_of_find?_eq_some found, .take start⟩, by simpa using joined⟩
      · obtain ⟨⟨front, head, tail⟩, later, same⟩ := Option.map_eq_some_iff.1 h
        cases same
        rw [getLast?_cons_or]
        exact ih later

theorem eq_parenthesis_of_sameLetter {c : Char} (h : sameLetter '(' c) : c = '(' := by
  have ascii : c.toNat < 128 := by
    by_contra above
    have outer := isOuter_letterClass (Nat.not_lt.1 above)
    rw [← sameLetter_iff.1 h] at outer
    exact absurd outer (by decide)
  have table := forall_of_lt_128 (p := fun c => !sameLetter '(' c || c == '(') (by decide) ascii
  simpa [h] using table

namespace IsHead

variable (h : IsHead head)
include h

/-- A length could start behind the head of a call. -/
theorem getLast? : head.getLast?.any Length.joinsNext = false := by
  obtain ⟨name, hname, spells⟩ := h
  have names : ∀ name ∈ callNames, name.drop (name.length - 1) = ['('] := by decide
  have single : (head.drop (name.length - 1)).length = 1 := by
    rw [List.length_drop, spells.length_eq, ← List.length_drop, names name hname]
    rfl
  obtain ⟨c, hc⟩ := List.length_eq_one_iff.1 single
  have same := isPrefixNoCase_drop spells.same (name.length - 1)
  rw [names name hname, hc, isPrefixNoCase, Bool.and_eq_true] at same
  rw [← List.take_append_drop (name.length - 1) head, hc, List.getLast?_concat,
    eq_parenthesis_of_sameLetter same.1]
  rfl

theorem ne_nil : head ≠ [] := by
  rintro rfl
  obtain ⟨name, hname, spells⟩ := h
  have names : ∀ name ∈ callNames, name.length ≠ 0 := by decide
  exact names name hname spells.length_eq.symm

/-- No character of the head of a call is one of a numeral. -/
theorem not_numeral : ∀ c ∈ head, ¬ (isDigit c ∨ c = '.' ∨ c = '-') := by
  obtain ⟨name, hname, spells⟩ := h
  have table : callNames.all fun name => name.all fun a =>
      !isDigit (letterClass a) && !sameLetter a '.' && !sameLetter a '-' := by decide
  intro c hc
  obtain ⟨a, ha, letter⟩ := spells.exists_letter c hc
  have other := List.all_eq_true.1 (List.all_eq_true.1 table name hname) a ha
  simp only [Bool.and_eq_true, Bool.not_eq_true'] at other
  obtain ⟨⟨no_digit, no_point⟩, no_minus⟩ := other
  rintro (digit | rfl | rfl)
  · rw [sameLetter_iff.1 letter, letterClass_of_isDigit digit, digit] at no_digit
    cases no_digit
  · rw [letter] at no_point
    cases no_point
  · rw [letter] at no_minus
    cases no_minus

theorem silent (before : Option Char) (t : Text) : Silent Length.convertible before head t := by
  intro a b k hne text
  obtain ⟨c, b, rfl⟩ := List.exists_cons_of_ne_nil hne
  rw [List.cons_append, Length.convertible_of_head (h.not_numeral c (by simp [text]))]
  exact nofun

/-- The text in front of a call that does not directly follow a `%`. -/
theorem ends_front (edge : front.getLast?.any isWord = false)
    (apart : CallsApart (front ++ (head ++ tail))) :
    Ends Length.convertible none front (head ++ tail) := by
  intro a b text hne
  rw [text, List.getLast?_append_of_ne_nil _ hne] at edge
  refine Length.convertible_append (fun n u w writes start => ?_) fun n u writes => ?_
  · cases w with
    | nil => rfl
    | cons c w =>
        obtain ⟨d, head, rfl⟩ := List.exists_cons_of_ne_nil h.ne_nil
        obtain ⟨rfl, -⟩ := List.cons_prefix_cons.1 start
        exact absurd (writes.cut hne edge) (h.not_numeral c List.mem_cons_self)
  · obtain ⟨c, last, word | percent⟩ := writes.exists_last
    · rw [last, Option.any_some, word] at edge
      cases edge
    · obtain ⟨name, hname, spells⟩ := h
      obtain ⟨b, rfl⟩ := List.getLast?_eq_some_iff.1 last
      have whole : Spells ('%' :: name) (c :: head) := by
        refine ⟨congrArg Nat.succ spells.length_eq, ?_⟩
        rw [isPrefixNoCase, percent, spells.same]
        rfl
      have found := containsNoCase_iff.2 ⟨_, whole, a ++ b, tail, rfl⟩
      have text : front ++ (head ++ tail) = a ++ b ++ c :: head ++ tail := by simp [text]
      rw [← text, apart name hname] at found
      cases found

end IsHead

/-- No length goes on over a closing parenthesis. -/
theorem ends_inner : Ends Length.convertible before inner (')' :: rest) := by
  intro a b text hne
  refine Length.convertible_append (fun n u w writes start => ?_) fun n u writes => rfl
  cases w with
  | nil => rfl
  | cons c w =>
      obtain ⟨rfl, -⟩ := List.cons_prefix_cons.1 start
      exact absurd (by simp) writes.notMem_close

/-- The lengths of a value with a closed call are those in front of the call, those of its arguments
and those behind it. -/
theorem mapTokens_call (f : Text → Text) (called : IsHead head)
    (edge : front.getLast?.any isWord = false)
    (apart : CallsApart (front ++ (head ++ (inner ++ ')' :: rest)))) :
    mapTokens Length.convertible f (front ++ (head ++ (inner ++ ')' :: rest))) =
      mapTokens Length.convertible f front ++ head ++ mapTokens Length.convertible f inner ++
        ')' :: mapTokens Length.convertible f rest := by
  have opened : (head.getLast?.or front.getLast?).any Length.joinsNext = false := by
    rw [List.getLast?_eq_some_getLast called.ne_nil, Option.some_or,
      ← List.getLast?_eq_some_getLast called.ne_nil]
    exact called.getLast?
  have closing (before : Option Char) (n : Nat) :
      Length.convertible before (')' :: rest) ≠ some (n + 1) := by
    rw [Length.convertible_of_head (by decide)]
    exact nofun
  have closed : (some ')').any Length.joinsNext = false := rfl
  calc mapFrom Length.convertible f none (front ++ (head ++ (inner ++ ')' :: rest)))
    _ = mapFrom Length.convertible f none front ++ (head ++
        mapFrom Length.convertible f (head.getLast?.or front.getLast?) (inner ++ ')' :: rest)) := by
      rw [mapFrom_append_of_ends Length.bounded_convertible f (called.ends_front edge apart),
        Option.or_none, mapFrom_append (called.silent _ _)]
    _ = mapFrom Length.convertible f none front ++ (head ++
        mapFrom Length.convertible f none (inner ++ ')' :: rest)) := by
      rw [Length.mapFrom_of_apart f opened]
    _ = mapFrom Length.convertible f none front ++ (head ++
        (mapFrom Length.convertible f none inner ++
          ')' :: mapFrom Length.convertible f (some ')') rest)) := by
      rw [mapFrom_append_of_ends Length.bounded_convertible f ends_inner,
        mapFrom_plain (closing _)]
    _ = mapFrom Length.convertible f none front ++ head ++
        mapFrom Length.convertible f none inner ++
          ')' :: mapFrom Length.convertible f none rest := by
      rw [Length.mapFrom_of_apart f closed]
      simp

variable (b : LengthBases) (chain : List Conversion)

/-- Every length is converted by itself, inside of calls as outside, whether or not parentheses are
closed. -/
theorem convert_eq_mapTokens (h : CallsApart value) :
    convert b chain value = mapTokens Length.convertible (applyAll b chain) value := by
  fun_induction convert b chain value with
  | case1 value hcut => rfl
  | case2 value front head tail hcut hclose => rfl
  | case3 value front head tail hcut inner rest hclose inner_ih rest_ih =>
      obtain ⟨called, edge⟩ := of_cutCall? hcut
      rw [Option.or_none] at edge
      have text : value = front ++ (head ++ (inner ++ ')' :: rest)) := by
        rw [text_of_cutCall? hcut, text_of_cutClosing? hclose, List.append_assoc]
      subst text
      have inside : inner <:+: front ++ (head ++ (inner ++ ')' :: rest)) :=
        ⟨front ++ head, ')' :: rest, by simp⟩
      have behind : rest <:+: front ++ (head ++ (inner ++ ')' :: rest)) :=
        ⟨front ++ head ++ inner ++ [')'], [], by simp⟩
      rw [inner_ih (h.of_isInfix inside), rest_ih (h.of_isInfix behind),
        mapTokens_call _ called edge h]
      rfl

/-- A call in a call, in other letter case, and one that is not closed. -/
theorem convert_eq_mapTokens_nested :
    let value := "Calc(1em + min(2em,(3px)) * 2) -.5em max(4em".toList
    CallsApart value ∧
      convert {} [⟨.em, .px⟩] value =
        mapTokens Length.convertible (applyAll {} [⟨.em, .px⟩]) value ∧
      convert {} [⟨.em, .px⟩] value = "Calc(16px + min(32px,(3px)) * 2) -8px max(64px".toList := by
  intro value
  have apart : CallsApart value := by decide +kernel
  have same := convert_eq_mapTokens {} [⟨.em, .px⟩] apart
  refine ⟨apart, same, same.trans ?_⟩
  decide +kernel

/-- Here no length stands in the value, but one in the text in front of the call. -/
example : ¬ CallsApart "5%calc(1)".toList ∧
    convert {} [⟨.percent, .px⟩] "5%calc(1)".toList = "5pxcalc(1)".toList ∧
    mapTokens Length.convertible (applyAll {} [⟨.percent, .px⟩]) "5%calc(1)".toList =
      "5%calc(1)".toList := by decide +kernel

end Conversion

end DesignTokens
