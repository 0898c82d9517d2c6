import DesignTokens.Proofs.ConvertedLengths
import DesignTokens.Proofs.ConvertedSheets
import DesignTokens.Proofs.WholeNumbers

/-!
Font sizes of a stylesheet whose `em` is converted to pixels. In a rule `em` stands for the size
that its selector has, and so it does in the declaration that sets this size: there k em are k times
that size. Sizes in other units are kept. Main statement: `get?_fontSizes_emToPx`.
-/
namespace DesignTokens

open Text Conversion

/-- The size that a declaration sets for a selector, as its number and its unit. -/
def Declaration.sizeFor? (selector : Text) (d : Declaration) : Option (Numeral × LengthUnit) :=
  if d.selector = selector ∧ d.property = "font-size".toList then Length.fontSize? d.value
  else none

/-- The last size that is set for a selector. -/
def lastSize? (t selector : Text) : Option (Numeral × LengthUnit) :=
  ((Declaration.parse t).filterMap (Declaration.sizeFor? selector)).getLast?

/-- What a size is multiplied by when it is converted: `em` then stands for the size itself. -/
def sizeFactor : Numeral × LengthUnit → Nat
  | (n, .em) => Decimal.digitsValue n.whole
  | _ => 1

/-- What the size of a selector is multiplied by. -/
def selectorFactor (t selector : Text) : Nat := ((lastSize? t selector).map sizeFactor).getD 1

/-- A positive whole number without a sign. -/
structure Numeral.IsCount (n : Numeral) : Prop where
  unsigned : n.negative = false
  whole : n.fraction = none
  positive : 0 < Decimal.digitsValue n.whole

/-- A size in pixels, from whole bases. -/
def wholePixels (root context : Nat) : Numeral × LengthUnit → Nat
  | (n, .rem) => Decimal.digitsValue n.whole * root
  | (n, .em) => Decimal.digitsValue n.whole * context
  | (n, _) => Decimal.digitsValue n.whole

/-- Bases and font sizes are positive whole numbers, and no product of them is rounded. -/
structure WholeSizes (b : LengthBases) (root context : Nat) (t : Text) : Prop where
  root_eq : b.root = Float.ofNat root
  context_eq : b.context = Float.ofNat context
  root_pos : 0 < root
  context_pos : 0 < context
  counts : ∀ d ∈ Declaration.parse t, d.property = "font-size".toList →
    ∀ size, Length.fontSize? d.value = some size → size.1.IsCount
  small : ∀ d ∈ Declaration.parse t, d.property = "font-size".toList →
    ∀ size, Length.fontSize? d.value = some size →
      sizeFactor size * wholePixels root context size < 2 ^ 53

/-! ### The last size -/

namespace Declaration

theorem sizeFor?_eq_some_iff {selector : Text} {d : Declaration} {size : Numeral × LengthUnit} :
    d.sizeFor? selector = some size ↔ d.selector = selector ∧ d.property = "font-size".toList ∧
      Length.fontSize? d.value = some size := by
  rw [sizeFor?]
  split_ifs with h
  · simp [h]
  · simp only [false_iff]
    exact fun all => h ⟨all.1, all.2.1⟩

end Declaration

/-- The sizes of raw values are those of the values without blanks around them. -/
theorem lastSize?_eq_raw (t selector : Text) : lastSize? t selector =
    ((Declaration.raw t).filterMap (Declaration.sizeFor? selector)).getLast? := by
  rw [lastSize?, Declaration.parse_eq_map_raw, List.filterMap_map]
  congr 2
  funext d
  simp only [Function.comp, Declaration.sizeFor?, Length.fontSize?_trim]

/-- The size of a selector in pixels, where the last size that is set for it is a size there, and
what is none is none there. -/
theorem get?_fontSizes_of_last {b : LengthBases} {t t' selector : Text}
    {value : Declaration → Text} {pixels : Numeral × LengthUnit → Float}
    (parsed : Declaration.parse t' =
      (Declaration.raw t).map fun d => { d with value := value d })
    (missing : ∀ d ∈ Declaration.raw t, d.selector = selector → d.property = "font-size".toList →
      Length.fontSize? d.value = none → Length.pixels b (value d) = 0.0)
    (last : ∀ d ∈ Declaration.raw t, d.selector = selector → d.property = "font-size".toList →
      ∀ size, Length.fontSize? d.value = some size → lastSize? t selector = some size →
        Length.pixels b (value d) = pixels size ∧ (pixels size == 0.0) = false) :
    (fontSizes b t').get? selector = (lastSize? t selector).map pixels := by
  rw [get?_fontSizes, sizeDeclarations, parsed]
  rw [lastSize?_eq_raw] at last ⊢
  clear parsed
  generalize Declaration.raw t = ds at missing last ⊢
  induction ds using List.reverseRecOn with
  | nil => rfl
  | append_singleton ds d ih =>
      have here : d ∈ ds ++ [d] := List.mem_append_right _ List.mem_cons_self
      rw [List.filterMap_append, List.getLast?_append] at last ⊢
      rw [List.map_append, List.filter_append, List.getLast?_append, List.map_singleton]
      cases size : d.sizeFor? selector with
      | none =>
          have dropped : ¬ (d.selector = selector ∧ d.property = "font-size".toList ∧
              !(Length.pixels b (value d) == 0.0)) := by
            rintro ⟨hs, hp, nonzero⟩
            rw [Declaration.sizeFor?, if_pos ⟨hs, hp⟩] at size
            rw [missing d here hs hp size] at nonzero
            cases nonzero
          rw [List.filterMap_cons_none size, List.filterMap_nil, List.getLast?_nil,
            Option.none_or] at last ⊢
          rw [List.filter_cons_of_neg (by simpa using dropped), List.filter_nil, List.getLast?_nil,
            Option.none_or]
          exact ih (fun e he => missing e (List.mem_append_left _ he))
            fun e he => last e (List.mem_append_left _ he)
      | some found =>
          obtain ⟨hs, hp, hf⟩ := Declaration.sizeFor?_eq_some_iff.1 size
          rw [List.filterMap_cons_some size, List.filterMap_nil, List.getLast?_singleton,
            Option.some_or] at last ⊢
          obtain ⟨same, nonzero⟩ := last d here hs hp found hf rfl
          rw [List.filter_cons_of_pos (by simp [hs, hp, same, nonzero]), List.filter_nil,
            List.getLast?_singleton, Option.some_or, Option.map_some, Option.map_some, same]

/-! ### Whole sizes -/

theorem Length.pixels_of_fontSize? {b : LengthBases} {value : Text} {n : Numeral} {u : LengthUnit}
    (h : fontSize? value = some (n, u)) : pixels b value = b.inPixels u n.toFloat := by
  rw [fontSize?] at h
  rw [pixels, h]

theorem Length.pixels_of_fontSize?_eq_none {b : LengthBases} {value : Text}
    (h : fontSize? value = none) : pixels b value = 0.0 := by
  rw [fontSize?] at h
  rw [pixels, h]

/-- A whole number of pixels is read as it was written. -/
theorem Length.fontSize?_lengthText {n : Nat} (positive : 0 < n) (small : n < 2 ^ 53) :
    fontSize? (lengthText (Float.ofNat n) .px) = some (⟨false, Number.digits n, none⟩, .px) := by
  have nonempty : Number.digits n ≠ [] := List.length_pos_iff.1 Nat.length_toDigits_pos
  have written : (⟨false, Number.digits n, none⟩ : Numeral).IsWritten :=
    ⟨fun c hc => isDigit_of_ascii (Number.isDigit_of_mem_digits c hc), nofun, fun _ => nonempty⟩
  have text : lengthText (Float.ofNat n) .px =
      (⟨false, Number.digits n, none⟩ : Numeral).text ++ LengthUnit.px.name := by
    rw [lengthText, Number.trimmed_ofNat positive small, Numeral.text_eq]
    simp [Numeral.size]
  have spells : Spells LengthUnit.px.name LengthUnit.px.name :=
    ⟨rfl, isPrefixNoCase_of_start (List.prefix_refl _)⟩
  rw [text]
  exact fontSize?_eq_some_iff.2 ⟨.head _, _, [], [], .mk _ written (.head _) spells,
    List.forall_mem_nil _, List.forall_mem_nil _, by simp⟩

theorem Length.pixels_lengthText {n : Nat} (positive : 0 < n) (small : n < 2 ^ 53)
    {b : LengthBases} {value : Text}
    (h : fontSize? value = fontSize? (lengthText (Float.ofNat n) .px)) :
    pixels b value = Float.ofNat n := by
  have digits := Number.digitsValue_digits n
  have read := Numeral.toFloat_whole (digits.symm ▸ positive) (digits.symm ▸ small)
  rw [fontSize?_lengthText positive small] at h
  rw [pixels_of_fontSize? h, LengthBases.inPixels, read, digits]

theorem Numeral.IsCount.toFloat_eq {n : Numeral} (h : n.IsCount)
    (small : Decimal.digitsValue n.whole < 2 ^ 53) :
    n.toFloat = Float.ofNat (Decimal.digitsValue n.whole) := by
  obtain ⟨negative, whole, fraction⟩ := n
  obtain ⟨rfl, rfl, positive⟩ := h
  exact toFloat_whole positive small

theorem sizeFactor_pos {size : Numeral × LengthUnit} (h : size.1.IsCount) : 0 < sizeFactor size := by
  unfold sizeFactor
  split
  · exact h.positive
  · exact Nat.one_pos

namespace WholeSizes

variable {b : LengthBases} {root context : Nat} {t : Text} (h : WholeSizes b root context t)
include h

theorem digitsValue_le (size : Numeral × LengthUnit) :
    Decimal.digitsValue size.1.whole ≤ wholePixels root context size := by
  unfold wholePixels
  split
  · exact Nat.le_mul_of_pos_right _ h.root_pos
  · exact Nat.le_mul_of_pos_right _ h.context_pos
  · exact Nat.le_refl _

/-- A converted size is no larger than what is not rounded, so the size itself is not either. -/
theorem bounds {size : Numeral × LengthUnit} (count : size.1.IsCount)
    (bound : sizeFactor size * wholePixels root context size < 2 ^ 53) :
    0 < wholePixels root context size ∧ wholePixels root context size < 2 ^ 53 :=
  ⟨count.positive.trans_le (h.digitsValue_le size),
    (Nat.le_mul_of_pos_left _ (sizeFactor_pos count)).trans_lt bound⟩

theorem of_mem_raw {d : Declaration} (hd : d ∈ Declaration.raw t)
    (hp : d.property = "font-size".toList) {size : Numeral × LengthUnit}
    (hs : Length.fontSize? d.value = some size) :
    size.1.IsCount ∧ sizeFactor size * wholePixels root context size < 2 ^ 53 := by
  have mem : { d with value := trim d.value } ∈ Declaration.parse t := by
    rw [Declaration.parse_eq_map_raw]
    exact List.mem_map.2 ⟨d, hd, rfl⟩
  have trimmed : Length.fontSize? (trim d.value) = some size := by rwa [Length.fontSize?_trim]
  exact ⟨h.counts _ mem hp size trimmed, h.small _ mem hp size trimmed⟩

theorem of_last {selector : Text} {size : Numeral × LengthUnit}
    (last : lastSize? t selector = some size) :
    size.1.IsCount ∧ sizeFactor size * wholePixels root context size < 2 ^ 53 := by
  obtain ⟨d, hd, hs⟩ := List.mem_filterMap.1 (List.mem_of_getLast? last)
  obtain ⟨-, hp, found⟩ := Declaration.sizeFor?_eq_some_iff.1 hs
  exact ⟨h.counts d hd hp size found, h.small d hd hp size found⟩

theorem inPixels_eq {n : Numeral} {u : LengthUnit} (hu : u ∈ [LengthUnit.px, .rem, .em])
    (count : n.IsCount) (small : wholePixels root context (n, u) < 2 ^ 53) :
    b.inPixels u n.toFloat = Float.ofNat (wholePixels root context (n, u)) := by
  have number := count.toFloat_eq ((h.digitsValue_le (n, u)).trans_lt small)
  have positive := count.positive.trans_le (h.digitsValue_le (n, u))
  simp only [List.mem_cons, List.not_mem_nil, or_false] at hu
  rcases hu with rfl | rfl | rfl
  · exact number
  · rw [LengthBases.inPixels, number, h.root_eq]
    exact Number.ofNat_mul positive small
  · rw [LengthBases.inPixels, number, h.context_eq]
    exact Number.ofNat_mul positive small

/-- The sizes before the conversion. -/
theorem get?_fontSizes (selector : Text) : (fontSizes b t).get? selector =
    (lastSize? t selector).map fun size => Float.ofNat (wholePixels root context size) := by
  refine get?_fontSizes_of_last (Declaration.parse_eq_map_raw t) ?_ ?_
  · intro d hd hs hp missing
    rw [← Length.fontSize?_trim] at missing
    exact Length.pixels_of_fontSize?_eq_none missing
  · intro d hd hs hp ⟨n, u⟩ size _
    obtain ⟨count, bound⟩ := h.of_mem_raw hd hp size
    obtain ⟨positive, small⟩ := h.bounds count bound
    have listed := (Length.fontSize?_eq_some_iff.1 size).1
    rw [← Length.fontSize?_trim] at size
    rw [Length.pixels_of_fontSize? size, h.inPixels_eq listed count small]
    exact ⟨rfl, Number.ofNat_beq_zero positive small⟩

theorem ruleSize_of_last {selector : Text} {size : Numeral × LengthUnit}
    (last : lastSize? t selector = some size) :
    ruleSize b t selector = Float.ofNat (wholePixels root context size) := by
  rw [ruleSize_eq, h.get?_fontSizes, last]
  rfl

/-- The sizes after it. -/
theorem get?_fontSizes_convertSheet (selector : Text) :
    (fontSizes b (convertSheet b emToPx t)).get? selector = (lastSize? t selector).map
      fun size => Float.ofNat (sizeFactor size * wholePixels root context size) := by
  have units : ∀ c ∈ emToPx, Value.Fits c.target.name :=
    List.forall_mem_singleton.2 (fits_of_known (.head _))
  refine get?_fontSizes_of_last (parse_convertSheet b units t).1 ?_ ?_
  · intro d hd hs hp missing
    apply Length.pixels_of_fontSize?_eq_none
    rw [Length.fontSize?_trim, fontSize?_convert, missing, Option.bind_none]
  · intro d hd hs hp ⟨n, u⟩ size last
    obtain ⟨count, bound⟩ := h.of_mem_raw hd hp size
    obtain ⟨least, small⟩ := h.bounds count bound
    have positive := Nat.mul_pos (sizeFactor_pos count) least
    refine ⟨?_, Number.ofNat_beq_zero positive bound⟩
    have converted := fontSize?_convert (b.withRuleSize (ruleSize b t d.selector)) d.value
    rw [← Length.fontSize?_trim, size, Option.bind_some] at converted
    by_cases em : u = .em
    · subst em
      refine Length.pixels_lengthText positive bound (converted.trans ?_)
      have number := count.toFloat_eq ((h.digitsValue_le (n, .em)).trans_lt small)
      have scaled : (b.withRuleSize (ruleSize b t d.selector)).inPixels .em n.toFloat =
          Float.ofNat (sizeFactor (n, .em) * wholePixels root context (n, .em)) := by
        rw [hs, h.ruleSize_of_last last, number]
        exact Number.ofNat_mul positive bound
      rw [convertedSize?, scaled]
    · have kept : sizeFactor (n, u) = 1 := by
        cases u <;> first | rfl | exact absurd rfl em
      have listed := (Length.fontSize?_eq_some_iff.1 size).1
      rw [convertedSize?_of_ne _ em] at converted
      rw [Length.pixels_of_fontSize? converted, h.inPixels_eq listed count small, kept, one_mul]

end WholeSizes

/-- The conversion of `em` to pixels multiplies the size of each selector by the number of its last
size, if this is in `em`, and keeps all others. So it keeps a size if and only if that is one. -/
theorem get?_fontSizes_emToPx {b : LengthBases} {root context : Nat} {t : Text}
    (h : WholeSizes b root context t) (selector : Text) :
    (fontSizes b (convertSheet b emToPx t)).get? selector =
        ((fontSizes b t).get? selector).map (Float.ofNat (selectorFactor t selector) * ·) ∧
      ((fontSizes b (convertSheet b emToPx t)).get? selector = (fontSizes b t).get? selector ↔
        selectorFactor t selector = 1) := by
  rw [h.get?_fontSizes_convertSheet, h.get?_fontSizes, selectorFactor]
  cases last : lastSize? t selector with
  | none => exact ⟨rfl, iff_of_true rfl rfl⟩
  | some size =>
      obtain ⟨count, bound⟩ := h.of_last last
      obtain ⟨pixels, small⟩ := h.bounds count bound
      have converted := Nat.mul_pos (sizeFactor_pos count) pixels
      simp only [Option.map_some, Option.getD_some, Option.some.injEq]
      refine ⟨(Number.ofNat_mul converted bound).symm, ?_⟩
      rw [Number.ofNat_inj bound small]
      exact Nat.mul_eq_right pixels.ne'

/-- What there is to check of the declarations of a sheet. -/
theorem wholeSizes_of_forall {b : LengthBases} {root context : Nat} {t : Text}
    (hr : b.root = Float.ofNat root) (hc : b.context = Float.ofNat context)
    (bases : 0 < root ∧ 0 < context)
    (sizes : ∀ d ∈ Declaration.parse t, ∀ size ∈ Length.fontSize? d.value,
      size.1.negative = false ∧ size.1.fraction = none ∧ 0 < Decimal.digitsValue size.1.whole ∧
        sizeFactor size * wholePixels root context size < 2 ^ 53) :
    WholeSizes b root context t := by
  refine ⟨hr, hc, bases.1, bases.2, ?_, ?_⟩
  · intro d hd _ size hs
    obtain ⟨unsigned, whole, positive, -⟩ := sizes d hd size hs
    exact ⟨unsigned, whole, positive⟩
  · intro d hd _ size hs
    exact (sizes d hd size hs).2.2.2

theorem get?_fontSizes_emToPx_doubled :
    let sheet := "a\x7bfont-size:2em\x7db\x7bfont-size:2em\x7da\x7bfont-size:3rem\x7d".toList
    WholeSizes {} 16 16 sheet ∧ selectorFactor sheet ['b'] = 2 ∧
      (fontSizes {} (convertSheet {} emToPx sheet)).get? ['b'] =
        ((fontSizes {} sheet).get? ['b']).map (Float.ofNat 2 * ·) := by
  intro sheet
  have whole : WholeSizes {} 16 16 sheet :=
    wholeSizes_of_forall rfl rfl (by decide) (by decide +kernel)
  have factor : selectorFactor sheet ['b'] = 2 := by decide +kernel
  have converted := (get?_fontSizes_emToPx whole ['b']).1
  rw [factor] at converted
  exact ⟨whole, factor, converted⟩

/-- A size of 2em is not kept: what is 32 pixels is 64 afterwards. -/
theorem not_kept_doubled :
    let sheet := "a\x7bfont-size:2em\x7d".toList
    WholeSizes {} 16 16 sheet ∧
      (fontSizes {} (convertSheet {} emToPx sheet)).get? ['a'] ≠
        (fontSizes {} sheet).get? ['a'] := by
  intro sheet
  have before : (fontSizes {} sheet).get? ['a'] = some 32.0 := by decide +kernel
  have after : (fontSizes {} (convertSheet {} emToPx sheet)).get? ['a'] = some 64.0 := by
    decide +kernel
  refine ⟨wholeSizes_of_forall rfl rfl (by decide) (by decide +kernel), ?_⟩
  rw [before, after]
  decide +kernel

end DesignTokens
