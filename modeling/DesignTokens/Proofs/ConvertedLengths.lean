import DesignTokens.Proofs.ConvertedValues
import DesignTokens.Proofs.WrittenLengths

/-!
The conversion of a value from `em` to pixels. A value that is one length in px, rem or em is one
again, and no other value becomes one: what stands before a length or after it keeps standing there.
Main statement: `fontSize?_convert`.
-/
namespace DesignTokens

open Text

namespace Length

/-- The number and the unit of a value that is one length in px, rem or em. -/
def fontSize? (value : Text) : Option (Numeral × LengthUnit) :=
  parse? [.px, .rem, .em] .anyCase (trim value)

variable {n : Numeral} {u : LengthUnit} {w t rest : Text}

theorem known_sizeUnits : ∀ u ∈ [LengthUnit.px, .rem, .em], u ∈ LengthUnit.known := by decide

theorem parse?_eq_some_iff {units : List LengthUnit} {spelling : Spelling} :
    parse? units spelling t = some (n, u) ↔ scan? units spelling t = some (n, u, []) := by
  rw [parse?]
  split
  · rename_i hs
    simp [hs]
  · rename_i hs
    simpa using hs n u

/-- A value that is one length has only blanks around it. -/
theorem fontSize?_eq_some_iff : fontSize? t = some (n, u) ↔
    u ∈ [LengthUnit.px, .rem, .em] ∧ ∃ w a c, Writes n u w ∧ (∀ d ∈ a, isBlank d) ∧
      (∀ d ∈ c, isBlank d) ∧ t = a ++ (w ++ c) := by
  rw [fontSize?, parse?_eq_some_iff]
  constructor
  · intro h
    obtain ⟨a, c, text, ha, hc⟩ := exists_trim t
    obtain ⟨hu, w, hw, trimmed⟩ := exists_of_scan? known_sizeUnits h
    rw [trimmed, List.append_nil] at text
    exact ⟨hu, w, a, c, hw, ha, hc, text⟩
  · rintro ⟨hu, w, a, c, hw, ha, hc, rfl⟩
    have solid : ∀ c ∈ w, isBlank c = false := fun c hc => (hw.classes c hc).1
    have scanned := hw.scan?_append known_sizeUnits hu []
    rwa [trim_append_of_blank ha, trim_append_of_solid solid hc, ← List.append_nil w]

theorem fontSize?_append_of_blank {a : Text} (ha : ∀ c ∈ a, isBlank c) (t : Text) :
    fontSize? (a ++ t) = fontSize? t := by
  rw [fontSize?, trim_append_of_blank ha, fontSize?]

theorem fontSize?_trim (t : Text) : fontSize? (trim t) = fontSize? t := by
  obtain ⟨a, c, text, ha, hc⟩ := exists_trim t
  refine Option.ext fun ⟨n, u⟩ => ⟨fun h => ?_, fun h => ?_⟩
  · obtain ⟨hu, w, a', c', hw, ha', hc', trimmed⟩ := fontSize?_eq_some_iff.1 h
    rw [trimmed] at text
    exact fontSize?_eq_some_iff.2 ⟨hu, w, a ++ a', c' ++ c, hw, List.forall_mem_append.2 ⟨ha, ha'⟩,
      List.forall_mem_append.2 ⟨hc', hc⟩, by rw [text]; simp⟩
  · obtain ⟨hu, w, a', c', hw, ha', hc', rfl⟩ := fontSize?_eq_some_iff.1 h
    have solid : ∀ c ∈ w, isBlank c = false := fun c hc => (hw.classes c hc).1
    rw [trim_append_of_blank ha', trim_append_of_solid solid hc']
    exact fontSize?_eq_some_iff.2
      ⟨hu, w, [], [], hw, List.forall_mem_nil _, List.forall_mem_nil _, by simp⟩

/-- A character other than a blank that no length has. -/
theorem fontSize?_of_mem {c : Char} (hc : c ∈ t) (solid : isBlank c = false)
    (joins : joinsNext c = false) : fontSize? t = none := by
  refine Option.eq_none_iff_forall_ne_some.2 fun ⟨n, u⟩ h => ?_
  obtain ⟨hu, w, a, b, hw, ha, hb, rfl⟩ := fontSize?_eq_some_iff.1 h
  have other : u ≠ .percent := by
    rintro rfl
    simp at hu
  rcases List.mem_append.1 hc with before | hc
  · rw [ha c before] at solid
    cases solid
  · rcases List.mem_append.1 hc with inside | after
    · rw [(hw.classes c inside).2 other] at joins
      cases joins
    · rw [hb c after] at solid
      cases solid

/-- A text that begins with no blank is one length if a length with blanks after it is the text. -/
theorem fontSize?_eq_some_iff_of_solid (h : nextIs isBlank t = false) :
    fontSize? t = some (n, u) ↔ u ∈ [LengthUnit.px, .rem, .em] ∧
      ∃ w c, Writes n u w ∧ (∀ d ∈ c, isBlank d) ∧ t = w ++ c := by
  rw [fontSize?_eq_some_iff]
  constructor
  · rintro ⟨hu, w, a, c, hw, ha, hc, rfl⟩
    cases a with
    | nil => exact ⟨hu, w, c, hw, hc, rfl⟩
    | cons d a =>
        have blank := ha d List.mem_cons_self
        rw [List.cons_append, nextIs, blank] at h
        cases h
  · rintro ⟨hu, w, c, hw, hc, rfl⟩
    exact ⟨hu, w, [], c, hw, List.forall_mem_nil _, hc, rfl⟩

/-! ### Lengths among other text -/

theorem convertible_of_joins {before : Option Char} (h : before.any joinsNext) (t : Text) :
    convertible before t = none := by
  rw [convertible, tokenOf]
  split
  · rw [h]
    rfl
  · rfl

theorem convertible_eq_some_iff {before : Option Char} {k : Nat} :
    convertible before t = some k ↔ before.any joinsNext = false ∧ ∃ n u w rest,
      Writes n u w ∧ t = w ++ rest ∧ k = w.length ∧
        nextIs (fun c => isWord c || c == '%') rest = false := by
  rw [convertible, tokenOf]
  constructor
  · intro h
    split at h
    · rename_i n u rest scanned
      obtain ⟨hu, w, hw, rfl⟩ := exists_of_scan? (fun _ hu => hu) scanned
      split at h
      · cases h
      · rename_i apart
        simp only [Bool.or_eq_true, not_or, Bool.not_eq_true] at apart
        cases h
        exact ⟨apart.1, n, u, w, rest, hw, rfl, by simp, apart.2⟩
    · cases h
  · rintro ⟨apart, n, u, w, rest, hw, rfl, rfl, stop⟩
    simp [hw.scan?_known rest, apart, stop]

/-- What follows a length in a font size is blank. -/
theorem Writes.blank_of_fontSize? (hw : Writes n u w) {n' : Numeral} {u' : LengthUnit}
    (h : fontSize? (w ++ t) = some (n', u')) : (n', u') = (n, u) ∧ ∀ c ∈ t, isBlank c := by
  have solid : nextIs isBlank (w ++ t) = false := by
    obtain ⟨c, w', rfl⟩ := List.exists_cons_of_ne_nil hw.ne_nil
    exact (hw.classes c List.mem_cons_self).1
  obtain ⟨-, w', c, hw', hc, text⟩ := (fontSize?_eq_some_iff_of_solid solid).1 h
  have scanned := hw.scan?_known t
  rw [text, hw'.scan?_known c] at scanned
  cases scanned
  exact ⟨rfl, hc⟩

theorem solid_lengthText (size : Float) :
    ∀ c ∈ lengthText size .px, isBlank c = false := by
  intro c hc
  rcases List.mem_append.1 hc with number | unit
  · by_contra blank
    have table := forall_of_inRanges (p := fun c => !Number.isNumberChar c) (by decide +kernel)
      (Bool.not_eq_false _ ▸ blank)
    rw [Number.isNumberChar_trimmed c number] at table
    cases table
  · have table : LengthUnit.px.name.all fun c => !isBlank c := by decide
    simpa using List.all_eq_true.1 table c unit

/-- In a font size only the unit of pixels has a `p`, in front. -/
theorem Writes.cut_unit (hw : Writes n u w) (hu : u ∈ [LengthUnit.px, .rem, .em]) (hp : 'p' ∈ w) :
    ∃ c, w = n.text ++ ['p', c] ∧ 'p' ∉ n.text := by
  obtain ⟨spelled, written, -, spells⟩ := hw
  have number : 'p' ∉ n.text := by
    intro mem
    rcases written.mem_text_cases 'p' mem with digit | point | minus
    · cases digit
    · cases point
    · cases minus
  have unit := (List.mem_append.1 hp).resolve_left number
  obtain ⟨length, same⟩ := spells
  have tables : u = .px ∧ sameLetter 'x' 'p' = false := by
    obtain ⟨a, ha, letter⟩ := Spells.exists_letter ⟨length, same⟩ 'p' unit
    have table : [LengthUnit.rem, .em].all fun u => u.name.all fun a => !sameLetter a 'p' := by
      decide
    refine ⟨?_, rfl⟩
    rcases List.mem_cons.1 hu with px | other
    · exact px
    · have none := List.all_eq_true.1 (List.all_eq_true.1 table u other) a ha
      simp [letter] at none
  obtain ⟨rfl, apart⟩ := tables
  obtain ⟨c, d, rfl⟩ := List.length_eq_two.1 length
  have second : sameLetter 'x' d := by
    have both : (sameLetter 'p' c && (sameLetter 'x' d && true)) = true := same
    simpa using (Bool.and_eq_true_iff.1 both).2
  rcases List.mem_cons.1 unit with rfl | last
  · exact ⟨d, rfl, number⟩
  · rw [← List.mem_singleton.1 last, apart] at second
    cases second

/-- So it is after pixels that were written. -/
theorem blank_of_fontSize?_lengthText {size : Float}
    (h : fontSize? (lengthText size .px ++ t) = some (n, u)) : ∀ c ∈ t, isBlank c := by
  have solid := solid_lengthText size
  have number : 'p' ∉ Number.trimmed 4 size := fun mem => by
    cases Number.isNumberChar_trimmed 'p' mem
  have first : nextIs isBlank (lengthText size .px ++ t) = false := by
    cases hl : lengthText size .px with
    | nil => simp [lengthText, LengthUnit.name] at hl
    | cons c l => exact solid c (hl ▸ List.mem_cons_self)
  obtain ⟨hu, w, c, hw, hc, text⟩ := (fontSize?_eq_some_iff_of_solid first).1 h
  have unit : 'p' ∈ w := by
    have whole : 'p' ∈ w ++ c := text ▸ by simp [lengthText, LengthUnit.name]
    exact (List.mem_append.1 whole).resolve_right fun mem => by cases hc 'p' mem
  obtain ⟨d, rfl, plain⟩ := hw.cut_unit hu unit
  have written : Number.trimmed 4 size ++ 'p' :: ('x' :: t) = n.text ++ 'p' :: (d :: c) := by
    rw [lengthText, List.append_assoc, List.append_assoc] at text
    exact text
  have cuts := cut_append_cons plain (d :: c)
  rw [← written, cut_append_cons number] at cuts
  obtain ⟨-, rest⟩ := Prod.mk.inj cuts
  rw [(List.cons.inj (Option.some.inj rest)).2]
  exact hc

end Length

/-! ### Conversion -/

def emToPx : List Conversion := [⟨.em, .px⟩]

namespace Conversion

open Length

variable {n : Numeral} {u : LengthUnit} {w t rest : Text}

theorem applyAll_emToPx (b : LengthBases) (h : Writes n u w) : applyAll b emToPx w =
    if u = .em then lengthText (b.inPixels .em n.toFloat) .px else w := by
  have parsed : parse? LengthUnit.known .anyCase (trim w) = some (n, u) := by
    have scanned := h.scan?_known []
    rw [List.append_nil] at scanned
    rw [trim_of_solid fun c hc => (h.classes c hc).1, parse?_eq_some_iff, scanned]
  have single : applyAll b emToPx w = apply b w ⟨.em, .px⟩ := rfl
  rw [single, apply, parsed]
  by_cases em : u = .em
  · subst em
    rfl
  · simp only [em, if_false]

/-- The rest of a value, some of which is part of a length already, with its lengths converted. -/
def convertFrom (b : LengthBases) (before : Option Char) (skip : Nat) (t : Text) : Text :=
  (piecesFrom convertible before skip t).flatMap (Piece.mapToken (applyAll b emToPx))

variable (b : LengthBases) {before : Option Char}

/-- Where there are only blanks, before or after, nothing is converted. -/
theorem convertFrom_of_blank {skip : Nat} (h : (∀ c ∈ t.drop skip, isBlank c) ∨
    ∀ c ∈ convertFrom b before skip t, isBlank c) :
    convertFrom b before skip t = t.drop skip := by
  rw [← piecesFrom_text convertible before skip t] at h ⊢
  refine List.flatMap_congr fun p hp => ?_
  cases p with
  | plain c => rfl
  | token part =>
      obtain ⟨before', v, k, -, -, hr, rfl⟩ := exists_of_mem_piecesFrom hp
      obtain ⟨-, n, u, w, rest, hw, rfl, length, -⟩ := convertible_eq_some_iff.1 hr
      rw [length, List.take_left] at hp ⊢
      obtain ⟨c, w', rfl⟩ := List.exists_cons_of_ne_nil hw.ne_nil
      have first := (hw.classes c List.mem_cons_self).1
      rcases h with source | result
      · have blank := source c (List.mem_flatMap.2 ⟨_, hp, List.mem_cons_self⟩)
        rw [first] at blank
        cases blank
      · have blank : ∀ d ∈ applyAll b emToPx (c :: w'), isBlank d := fun d hd =>
          result d (List.mem_flatMap.2 ⟨_, hp, hd⟩)
        rw [applyAll_emToPx b hw] at blank
        split at blank
        · have last := blank 'x' (by simp [lengthText, LengthUnit.name])
          cases last
        · have same := blank c List.mem_cons_self
          rw [first] at same
          cases same

theorem convertFrom_cons {c : Char} (h : convertible before (c :: t) = none) :
    convertFrom b before 0 (c :: t) = c :: convertFrom b (some c) 0 t := by
  simp only [convertFrom, piecesFrom, h, List.flatMap_cons]
  rfl

/-- A length at the start is converted by itself. -/
theorem exists_convertFrom_append (hw : Writes n u w) (hb : before.any joinsNext = false)
    (stop : nextIs (fun c => isWord c || c == '%') rest = false) :
    ∃ converted, convertFrom b before 0 (w ++ rest) = applyAll b emToPx w ++ converted ∧
      ((∀ c ∈ rest, isBlank c) ∨ (∀ c ∈ converted, isBlank c) → converted = rest) := by
  have found : convertible before (w ++ rest) = some w.length :=
    convertible_eq_some_iff.2 ⟨hb, n, u, w, rest, hw, rfl, rfl, stop⟩
  obtain ⟨c, w', rfl⟩ := List.exists_cons_of_ne_nil hw.ne_nil
  refine ⟨convertFrom b (some c) w'.length (w' ++ rest), ?_, fun h => ?_⟩
  · rw [List.cons_append, List.length_cons] at found
    simp only [convertFrom, List.cons_append, piecesFrom, found, List.flatMap_cons,
      List.take_left]
    rfl
  · rw [convertFrom_of_blank b (by rwa [List.drop_left]), List.drop_left]

/-- No length starts in a word. -/
theorem convertFrom_of_joins (hb : before.any joinsNext) {s c : Text}
    (h : convertFrom b before 0 t = s ++ c) (hs : ∀ d ∈ s, joinsNext d) (hc : ∀ d ∈ c, isBlank d) :
    convertFrom b before 0 t = t := by
  induction t generalizing before s with
  | nil => rfl
  | cons d t ih =>
      have step := convertFrom_cons b (convertible_of_joins hb (d :: t))
      cases s with
      | nil => exact convertFrom_of_blank b (.inr (by rwa [h]))
      | cons e s =>
          rw [step] at h ⊢
          obtain ⟨rfl, later⟩ := List.cons.inj h
          have joins : (some d).any joinsNext := hs d List.mem_cons_self
          rw [ih joins later fun d hd => hs d (.tail _ hd)]

/-- The font size that a font size is converted to. -/
def convertedSize? : Numeral × LengthUnit → Option (Numeral × LengthUnit)
  | (n, .em) => fontSize? (lengthText (b.inPixels .em n.toFloat) .px)
  | size => some size

theorem convertedSize?_of_ne (h : u ≠ .em) : convertedSize? b (n, u) = some (n, u) := by
  cases u <;> first | rfl | exact absurd rfl h

/-- What starts with a length is a font size if nothing but blanks follows. -/
theorem fontSize?_convertFrom_append (hw : Writes n u w) (hb : before.any joinsNext = false)
    (stop : nextIs (fun c => isWord c || c == '%') rest = false) :
    fontSize? (convertFrom b before 0 (w ++ rest)) =
      (fontSize? (w ++ rest)).bind (convertedSize? b) := by
  obtain ⟨converted, whole, same⟩ := exists_convertFrom_append b hw hb stop
  rw [whole, applyAll_emToPx b hw]
  by_cases blank : ∀ c ∈ rest, isBlank c
  · rw [same (.inl blank)]
    by_cases em : u = .em
    · subst em
      have size : fontSize? (w ++ rest) = some (n, .em) :=
        fontSize?_eq_some_iff.2 ⟨by simp, w, [], rest, hw, List.forall_mem_nil _, blank, rfl⟩
      have alone := trim_append_of_solid (solid_lengthText (b.inPixels .em n.toFloat)) blank
      have trimmed := trim_of_solid (solid_lengthText (b.inPixels .em n.toFloat))
      rw [if_pos rfl, size, fontSize?, alone, Option.bind_some, convertedSize?, fontSize?, trimmed]
    · rw [if_neg em]
      cases size : fontSize? (w ++ rest) with
      | none => rfl
      | some found =>
          obtain ⟨m, v⟩ := found
          obtain ⟨whole, -⟩ := hw.blank_of_fontSize? size
          cases whole
          exact (convertedSize?_of_ne b em).symm
  · have source : fontSize? (w ++ rest) = none :=
      Option.eq_none_iff_forall_ne_some.2 fun ⟨m, v⟩ size => blank (hw.blank_of_fontSize? size).2
    rw [source, Option.bind_none]
    refine Option.eq_none_iff_forall_ne_some.2 fun ⟨m, v⟩ size => blank ?_
    have after : ∀ c ∈ converted, isBlank c := by
      split at size
      · exact blank_of_fontSize?_lengthText size
      · exact (hw.blank_of_fontSize? size).2
    exact same (.inr after) ▸ after

/-- A font size starts with a length among other text. -/
theorem convertible_of_fontSize? (hb : before.any joinsNext = false)
    (ht : nextIs isBlank t = false) (h : fontSize? t = some (n, u)) :
    convertible before t ≠ none := by
  obtain ⟨-, w, blanks, hw, blank, text⟩ := (fontSize?_eq_some_iff_of_solid ht).1 h
  have stop : nextIs (fun c => isWord c || c == '%') blanks = false := by
    cases blanks with
    | nil => rfl
    | cons c blanks =>
        have table := forall_of_inRanges (p := fun c => !(isWord c || c == '%'))
          (by decide +kernel) (blank c List.mem_cons_self)
        simpa [nextIs] using table
  have start := convertible_eq_some_iff.2 ⟨hb, n, u, w, blanks, hw, text, rfl, stop⟩
  rw [start]
  exact Option.some_ne_none _

theorem fontSize?_convertFrom (hb : before.any joinsNext = false)
    (ht : nextIs isBlank t = false) :
    fontSize? (convertFrom b before 0 t) = (fontSize? t).bind (convertedSize? b) := by
  cases found : convertible before t with
  | some k =>
      obtain ⟨-, n, u, w, rest, hw, rfl, -, stop⟩ := convertible_eq_some_iff.1 found
      exact fontSize?_convertFrom_append b hw hb stop
  | none =>
      cases t with
      | nil => rfl
      | cons c t =>
          have source : fontSize? (c :: t) = none :=
            Option.eq_none_iff_forall_ne_some.2 fun _ size =>
              convertible_of_fontSize? hb ht size found
          rw [source, convertFrom_cons b found, Option.bind_none]
          -- the length of a font size would start in front, in the word that nothing starts in
          refine Option.eq_none_iff_forall_ne_some.2 fun other size => ?_
          obtain ⟨n, u⟩ := other
          have first : nextIs isBlank (c :: convertFrom b (some c) 0 t) = false := ht
          obtain ⟨hu, w, d, hw, hd, text⟩ := (fontSize?_eq_some_iff_of_solid first).1 size
          have relative : u ≠ .percent := by
            rintro rfl
            simp at hu
          have joins : ∀ d ∈ w, joinsNext d := fun d hd => (hw.classes d hd).2 relative
          obtain ⟨e, w', rfl⟩ := List.exists_cons_of_ne_nil hw.ne_nil
          obtain ⟨rfl, later⟩ := List.cons.inj text
          have inside : (some c).any joinsNext := joins c List.mem_cons_self
          have kept := convertFrom_of_joins b inside later (fun d hd => joins d (.tail _ hd)) hd
          rw [kept, source] at size
          cases size

/-- No length starts with a blank. -/
theorem exists_convertFrom_blanks (hb : before.any joinsNext = false) {blanks : Text}
    (h : ∀ c ∈ blanks, isBlank c) (t : Text) :
    ∃ before', before'.any joinsNext = false ∧
      convertFrom b before 0 (blanks ++ t) = blanks ++ convertFrom b before' 0 t := by
  induction blanks generalizing before with
  | nil => exact ⟨before, hb, rfl⟩
  | cons c blanks ih =>
      have blank := h c List.mem_cons_self
      have plain : convertible before (c :: (blanks ++ t)) = none := by
        refine Option.eq_none_iff_forall_ne_some.2 fun k found => ?_
        obtain ⟨-, n, u, w, rest, hw, text, -⟩ := convertible_eq_some_iff.1 found
        obtain ⟨d, w', rfl⟩ := List.exists_cons_of_ne_nil hw.ne_nil
        obtain ⟨rfl, -⟩ := List.cons.inj text
        have solid := (hw.classes c List.mem_cons_self).1
        rw [blank] at solid
        cases solid
      have apart : (some c).any joinsNext = false := by
        by_contra joins
        have solid := not_isBlank_of_joinsNext (Bool.not_eq_false _ ▸ joins)
        rw [blank] at solid
        cases solid
      obtain ⟨before', hb', text⟩ := ih apart fun d hd => h d (.tail _ hd)
      exact ⟨before', hb', by rw [List.cons_append, convertFrom_cons b plain, text]; rfl⟩

theorem fontSize?_convertFlat (value : Text) :
    fontSize? (convertFlat b emToPx value) = (fontSize? value).bind (convertedSize? b) := by
  have blanks : ∀ c ∈ value.takeWhile isBlank, isBlank c := fun _ hc => List.mem_takeWhile_imp hc
  have start : (none : Option Char).any joinsNext = false := rfl
  obtain ⟨before, hb, text⟩ :=
    exists_convertFrom_blanks b start blanks (value.dropWhile isBlank)
  rw [List.takeWhile_append_dropWhile] at text
  have size := fontSize?_append_of_blank blanks (value.dropWhile isBlank)
  rw [List.takeWhile_append_dropWhile] at size
  change fontSize? (convertFrom b none 0 value) = _
  rw [text, fontSize?_append_of_blank blanks, size,
    fontSize?_convertFrom b hb (nextIs_dropWhile isBlank value)]

/-- A value is one font size after the conversion if and only if it is one before, and then the one
that this is converted to. -/
theorem fontSize?_convert (value : Text) :
    fontSize? (convert b emToPx value) = (fontSize? value).bind (convertedSize? b) := by
  fun_cases convert b emToPx value with
  | case1 hcut => exact fontSize?_convertFlat b value
  | case2 front head tail hcut hclose => exact fontSize?_convertFlat b value
  | case3 front head tail hcut inner rest hclose =>
      have closing {front rest : Text} : fontSize? (front ++ ')' :: rest) = none :=
        fontSize?_of_mem (c := ')') (by simp) rfl rfl
      rw [closing, text_of_cutCall? hcut, text_of_cutClosing? hclose, ← List.append_assoc, closing,
        Option.bind_none]

end Conversion

end DesignTokens
