import DesignTokens.Proofs.ReferencedValues
import DesignTokens.Proofs.UnmixedKeys
import DesignTokens.Stylesheet.Declaration

/-!
The pass for colors. It replaces the colors one after another, the longest first, and that is to
replace them all at once: no color starts inside of one that is not longer, and none in a reference.
So the order of the map does not matter, no color is left, and if the names differ and are new to
the text, their colors can be put back. Main statement: `TokenMap.substituteAll_simultaneous`.
-/
namespace DesignTokens

open Text

/-! ### Colors in colors -/

namespace Color

variable {v v' k k' : Text}

/-- Nothing follows the parenthesis that closes a color. -/
theorem notMem_of_append_cons (h : k ∈ literals v) {front back : Text} {c : Char}
    (text : k = front ++ c :: back) : ')' ∉ front := by
  intro closed
  rcases eq_of_mem_literals h with ⟨digits, rfl, hex⟩ | ⟨head, hh, args, flat, rfl⟩
  · have inside : ')' ∈ '#' :: digits := text ▸ List.mem_append_left _ closed
    have digit := hex ')' (by simpa using inside)
    cases digit
  · have shorter := congrArg List.dropLast text
    rw [List.dropLast_concat, List.dropLast_append_of_ne_nil (by simp)] at shorter
    have heads : ∀ head ∈ callHeads, ')' ∉ head := by decide
    have inside : ')' ∈ head ++ args := shorter ▸ List.mem_append_left _ closed
    rcases List.mem_append.1 inside with opened | within
    · exact heads head hh opened
    · exact flat.2 within

theorem not_prefix_of_isHexDigit (h : k ∈ literals v) {c : Char} (hc : isHexDigit c) (rest : Text) :
    ¬ k <+: c :: rest := by
  intro start
  rcases (apart_of_color h).2 with sharp | ⟨head, hh, hhead⟩
  · obtain ⟨rfl, -⟩ := List.cons_prefix_cons.1 (sharp.trans start)
    cases hc
  · have heads : ∀ head ∈ callHeads, head.head?.any (isHexDigit · = false) := by decide
    have first := heads head hh
    cases head with
    | nil => cases first
    | cons d head =>
        obtain ⟨rfl, -⟩ := List.cons_prefix_cons.1 (hhead.trans start)
        simp [hc] at first

/-- Inside of a color starts no other one, unless it is shorter. -/
theorem not_prefix_inside (hk : k ∈ literals v) (hk' : k' ∈ literals v')
    (longer : k.length ≤ k'.length) {a b : Text} (text : k = a ++ b) (ha : a ≠ []) (hb : b ≠ [])
    (rest : Text) : ¬ k' <+: b ++ rest := by
  intro start
  rcases eq_of_mem_literals hk with ⟨digits, rfl, hex⟩ | ⟨head, hh, args, flat, rfl⟩
  · cases a with
    | nil => exact ha rfl
    | cons c a =>
        cases b with
        | nil => exact hb rfl
        | cons d b =>
            have digit := hex d (by rw [(List.cons.inj text).2]; simp)
            exact not_prefix_of_isHexDigit hk' digit _ start
  · have last : b.getLast? = some ')' := by
      rw [← List.getLast?_append_of_ne_nil a hb, ← text, List.getLast?_concat]
    rcases prefix_append_cases start with short | ⟨c, q, -, whole⟩
    · rw [text, List.length_append] at longer
      have front := List.length_pos_of_ne_nil ha
      have length := short.length_le
      omega
    · exact notMem_of_append_cons hk' whole (List.mem_of_getLast? last)

end Color

/-! ### The pass -/

theorem reference_injective : Function.Injective reference := by
  intro name other same
  simpa [reference] using same

namespace TokenMap

/-- The reference of a literal. -/
def inserted (m : TokenMap) (literal : Text) : Text :=
  ((m.get? literal).map reference).getD literal

/-- A text with the longest literal at each place replaced by its reference. -/
def substituteAtOnce (m : TokenMap) (t : Text) : Text := mapLongest m.keys m.inserted t

variable {m : TokenMap}

theorem inserted_of_mem {e : Text × Text} (h : e ∈ m.entries) : m.inserted e.1 = reference e.2 := by
  have found : m.get? e.1 = some e.2 := OrderedMap.get?_eq_some_iff.2 h
  rw [inserted, found]
  rfl

theorem exists_inserted {k : Text} (h : k ∈ m.keys) :
    ∃ name ∈ m.values, m.inserted k = reference name := by
  obtain ⟨e, he, rfl⟩ := List.mem_map.1 h
  exact ⟨e.2, List.mem_map_of_mem he, inserted_of_mem he⟩

section Colors

variable (colors : ∀ k ∈ m.keys, ∃ v, k ∈ Color.literals v)
  (plain : ∀ name ∈ m.values, ∀ c ∈ name, Block.isNameChar c)

include plain in
theorem notMem_of_isNameChar {name : Text} (h : name ∈ m.values) {c : Char}
    (hc : Block.isNameChar c = false) : c ∉ name := by
  intro mem
  rw [plain name h c mem] at hc
  cases hc

include colors plain

theorem unmixed : Unmixed m.keys m.values := by
  have shape (k : Text) (hk : k ∈ m.keys) : Apart k ∧ StartsColor k :=
    (colors k hk).elim fun _ => apart_of_color
  refine ⟨fun k hk => (shape k hk).2.ne_nil, fun k hk => (shape k hk).1, ?_, ?_⟩
  · intro k hk name hname q rest hq suffix
    have bracket : '(' ∉ name := notMem_of_isNameChar plain hname (by decide)
    have sharp : '#' ∉ name := notMem_of_isNameChar plain hname (by decide)
    exact (shape k hk).2.not_prefix_append bracket sharp hq suffix rest
  · intro k hk k' hk' longer a b rest text ha hb
    obtain ⟨v, color⟩ := colors k hk
    obtain ⟨v', color'⟩ := colors k' hk'
    exact Color.not_prefix_inside color color' longer text ha hb rest

theorem substituteAll_eq_substituteAtOnce (t : Text) :
    m.substituteAll t = m.substituteAtOnce t := by
  have sorted : (m.byLength.map Prod.fst).Perm m.keys := (List.mergeSort_perm _ _).map Prod.fst
  have unmixed := unmixed colors plain
  have apart := unmixed.mono sorted.subset
  have onePass : m.substituteAll t = mapLongest (m.byLength.map Prod.fst) m.inserted t := by
    refine foldl_replaceAll apart (sorted.nodup_iff.2 m.nodup_keys) pairwise_byLength ?_ t
    intro e he
    have entry := mem_byLength.1 he
    exact ⟨List.mem_map_of_mem entry, inserted_of_mem entry⟩
  rw [onePass, substituteAtOnce]
  exact mapLongest_congr apart.ne_nil (fun _ => sorted.mem_iff) (fun _ _ => rfl) t

/-- The order of the tokens does not matter. -/
theorem substituteAll_eq_of_perm {m' : TokenMap} (same : m'.entries.Perm m.entries) (t : Text) :
    m'.substituteAll t = m.substituteAll t := by
  have keys : m'.keys.Perm m.keys := same.map Prod.fst
  have values : m'.values.Perm m.values := same.map Prod.snd
  have colors' : ∀ k ∈ m'.keys, ∃ v, k ∈ Color.literals v := fun k hk => colors k (keys.subset hk)
  have plain' : ∀ name ∈ m'.values, ∀ c ∈ name, Block.isNameChar c :=
    fun name h => plain name (values.subset h)
  have inserted (k : Text) (hk : k ∈ m'.keys) : m'.inserted k = m.inserted k := by
    obtain ⟨e, he, rfl⟩ := List.mem_map.1 hk
    rw [inserted_of_mem he, inserted_of_mem (same.subset he)]
  rw [substituteAll_eq_substituteAtOnce colors' plain',
    substituteAll_eq_substituteAtOnce colors plain]
  exact mapLongest_congr (unmixed colors' plain').ne_nil (fun _ => keys.mem_iff) inserted t

theorem not_infix_substituteAll {k : Text} (hk : k ∈ m.keys) (t : Text) :
    ¬ k <:+: m.substituteAll t := by
  rw [substituteAll_eq_substituteAtOnce colors plain]
  exact not_infix_mapLongest (unmixed colors plain) (fun _ => exists_inserted) hk t

/-- Names that differ and are new to a text: their literals can be put back, in any order. -/
theorem foldl_replaceAll_substituteAll (distinct : m.values.Nodup) {t : Text}
    (fresh : ∀ name ∈ m.values, ¬ reference name <:+: t) {pairs : List (Text × Text)}
    (same : pairs.Perm m.entries) :
    pairs.foldl (fun t e => replaceAll (reference e.2) e.1 t) (m.substituteAll t) = t := by
  have keys : (pairs.map Prod.fst).Perm m.keys := same.map Prod.fst
  have unmixed := unmixed colors plain
  rw [substituteAll_eq_substituteAtOnce colors plain, substituteAtOnce, foldl_restore unmixed]
  · refine mapLongest_of_fixed unmixed.ne_nil (fun k hk => ?_) t
    exact restored_of_mem (keys.mem_iff.2 hk)
  · intro name h
    exact ⟨notMem_of_isNameChar plain h (by decide), notMem_of_isNameChar plain h (by decide)⟩
  · exact fun _ => exists_inserted
  · exact keys.nodup_iff.2 m.nodup_keys
  · intro e he
    have entry := same.subset he
    refine ⟨List.mem_map_of_mem entry, inserted_of_mem entry, fun k hk insertion => ?_⟩
    obtain ⟨e', entry', rfl⟩ := List.mem_map.1 hk
    rw [inserted_of_mem entry'] at insertion
    rw [List.inj_on_of_nodup_map distinct entry' entry (reference_injective insertion)]
  · exact fun e he => fresh e.2 (List.mem_map_of_mem (same.subset he))

/-- The pass for colors is one substitution from left to right of the longest color at each place,
whatever the order of the map. It leaves no color, and it can be undone. -/
theorem substituteAll_simultaneous (t : Text) :
    m.substituteAll t = m.substituteAtOnce t ∧
      (∀ m' : TokenMap, m'.entries.Perm m.entries → m'.substituteAll t = m.substituteAll t) ∧
      (∀ k ∈ m.keys, ¬ k <:+: m.substituteAll t) ∧
      (m.values.Nodup → (∀ name ∈ m.values, ¬ reference name <:+: t) →
        ∀ pairs : List (Text × Text), pairs.Perm m.entries →
          pairs.foldl (fun t e => replaceAll (reference e.2) e.1 t) (m.substituteAll t) = t) :=
  ⟨substituteAll_eq_substituteAtOnce colors plain t,
    fun _ same => substituteAll_eq_of_perm colors plain same t,
    fun _ hk => not_infix_substituteAll colors plain hk t,
    fun distinct fresh _ same => foldl_replaceAll_substituteAll colors plain distinct fresh same⟩

end Colors

/-- A color that starts like a longer one, and a call around it. -/
def nestedColors : TokenMap where
  entries := [("#abc".toList, "--short".toList), ("rgb(#abc)".toList, "--call".toList),
    ("#abcdef".toList, "--long".toList)]
  nodup_keys := by decide

def nestedText : Text := "a\x7bcolor:#abcdef;background:rgb(#abc) #abcd\x7d".toList

theorem substituteAll_nestedColors :
    (∀ k ∈ nestedColors.keys, ∃ v, k ∈ Color.literals v) ∧
      (∀ name ∈ nestedColors.values, ∀ c ∈ name, Block.isNameChar c) ∧
      nestedColors.substituteAll nestedText =
        "a\x7bcolor:var(--long);background:var(--call) var(--short)d\x7d".toList ∧
      nestedColors.values.Nodup ∧
      (∀ name ∈ nestedColors.values, ¬ reference name <:+: nestedText) ∧
      nestedColors.entries.foldl (fun t e => replaceAll (reference e.2) e.1 t)
        (nestedColors.substituteAll nestedText) = nestedText := by
  have own : ∀ k ∈ nestedColors.keys, k ∈ Color.literals k := by decide +kernel
  have words : ∀ name ∈ nestedColors.values, name.all Block.isNameChar := by decide +kernel
  have colors : ∀ k ∈ nestedColors.keys, ∃ v, k ∈ Color.literals v := fun k hk => ⟨k, own k hk⟩
  have plain : ∀ name ∈ nestedColors.values, ∀ c ∈ name, Block.isNameChar c :=
    fun name h => List.all_eq_true.1 (words name h)
  have distinct : nestedColors.values.Nodup := by decide
  have fresh : ∀ name ∈ nestedColors.values, ¬ reference name <:+: nestedText := by decide +kernel
  obtain ⟨atOnce, -, -, undone⟩ := substituteAll_simultaneous colors plain nestedText
  have text : nestedColors.substituteAtOnce nestedText =
      "a\x7bcolor:var(--long);background:var(--call) var(--short)d\x7d".toList := by decide +kernel
  exact ⟨colors, plain, atOnce.trans text, distinct, fresh, undone distinct fresh _ (.refl _)⟩

end TokenMap

end DesignTokens
