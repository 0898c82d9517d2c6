import DesignTokens.Proofs.DeclarableValues
import DesignTokens.Proofs.DistinctNames
import DesignTokens.Proofs.LoneLiterals
import DesignTokens.Proofs.WholeReferences

/-!
Longhands of typography as references. A font size, a line height, a font weight or a letter spacing
is a token as a whole, and becomes the reference of the first token, longest literals first, that is
the value up to letter case. It stays that reference alone if and only if the value is not empty and
no later literal is empty or one of the parts that stand alone in this reference. Main statement:
`longhand_references`.
-/
namespace DesignTokens

open Text

/-! ### Literals of longhands -/

namespace Text.IsSolid

theorem of_forall {p : Text} (hne : p ≠ []) (h : ∀ c ∈ p, isBlank c = false) : IsSolid p :=
  ⟨hne, fun c hc => h c (List.mem_of_mem_head? hc), fun c hc => h c (List.mem_of_getLast? hc)⟩

theorem trim {t : Text} (h : trim t ≠ []) : IsSolid (trim t) := by
  refine ⟨h, fun c hc => ?_, fun c hc => ?_⟩
  · obtain ⟨rest, text⟩ := List.head?_eq_some_iff.1 hc
    have start : Text.trim t <+: trimLeft t := by
      rw [← List.reverse_suffix, Text.trim, trimRight, List.reverse_reverse]
      exact List.dropWhile_suffix isBlank
    obtain ⟨b, whole⟩ := text ▸ start
    exact of_dropWhile_eq_cons whole.symm
  · rw [Text.trim, trimRight, List.getLast?_reverse] at hc
    obtain ⟨rest, text⟩ := List.head?_eq_some_iff.1 hc
    exact of_dropWhile_eq_cons text

theorem trim_append {p blanks : Text} (h : IsSolid p) (hb : ∀ c ∈ blanks, isBlank c) :
    Text.trim (p ++ blanks) = p := by
  refine trim_append_blanks ?_ ?_ hb
  · cases p with
    | nil => rfl
    | cons c p => exact h.head c rfl
  · cases last : p.getLast? with
    | none => rfl
    | some c => exact h.last c last

theorem append {p q : Text} (hp : IsSolid p) (hq : IsSolid q) (middle : Text) :
    IsSolid (p ++ (middle ++ q)) := by
  refine ⟨by simp [hp.ne_nil], fun c hc => hp.head c ?_, fun c hc => hq.last c ?_⟩
  · rwa [List.head?_append_of_ne_nil _ hp.ne_nil] at hc
  · rwa [← List.append_assoc, List.getLast?_append_of_ne_nil _ hq.ne_nil] at hc

end Text.IsSolid

namespace FontShorthand

theorem exists_writes_of_sizeSuffix? {before : Option Char} {t size rest : Text}
    (h : sizeSuffix? before t = some (size, rest)) : ∃ n u, Length.Writes n u size := by
  induction t generalizing before with
  | nil => cases h
  | cons c t ih =>
      rw [sizeSuffix?] at h
      split at h
      · rename_i length _ found
        obtain ⟨⟨n, u, tail⟩, scanned, rfl⟩ := Option.map_eq_some_iff.1 found
        obtain ⟨-, w, writes, text⟩ := Length.exists_of_scan? (by decide) scanned
        simp only [text, List.length_append, Nat.add_sub_cancel_right, List.splitAt_eq,
          List.take_left] at h
        cases h
        exact ⟨n, u, writes⟩
      · exact ih h

theorem isSolid_size {v size : Text} (h : (parse v).size = some size) : IsSolid size := by
  obtain ⟨⟨size', rest⟩, hs, rfl⟩ := Option.map_eq_some_iff.1 h
  obtain ⟨n, u, writes⟩ := exists_writes_of_sizeSuffix? hs
  exact .of_forall writes.ne_nil fun c hc => (writes.classes c hc).1

theorem isSolid_lineHeight {v height : Text} (h : (parse v).lineHeight = some height) :
    IsSolid height := by
  obtain ⟨⟨size, rest⟩, -, h⟩ := Option.bind_eq_some_iff.1 h
  obtain ⟨⟨height', tail⟩, hl, rfl⟩ := Option.map_eq_some_iff.1 h
  obtain ⟨blanks, blanks', cuts⟩ := exists_of_lineHeight? hl
  refine .of_forall cuts.ne_nil fun c hc => ?_
  have part := cuts.parts c hc
  simp only [isLineHeightPart, Bool.and_eq_true, Bool.not_eq_true'] at part
  exact part.1.1

theorem isSolid_weight {v weight : Text} (h : (parse v).weight = some weight) :
    IsSolid weight := by
  obtain ⟨before, u, n, -, hu, hr, rfl⟩ := exists_of_mem_tokens (List.mem_of_head? h)
  obtain ⟨w, hw, length⟩ := Option.bind_eq_some_iff.1 hr
  simp only at length
  split at length
  · cases length
  · have spells : Spells w (u.take w.length) :=
      .take (List.find?_some (p := fun w => isPrefixNoCase w u) hw)
    have solid : weights.all fun w => w.all fun a => !isBlank a := by decide
    have taken : u.take (n + 1) ≠ [] := by simp [hu]
    refine .of_forall taken fun c hc => ?_
    rw [← Option.some.inj length] at hc
    obtain ⟨a, ha, letter⟩ := spells.exists_letter c hc
    by_contra blank
    have same := isBlank_of_sameLetter letter (Bool.not_eq_false _ ▸ blank)
    have letters := List.all_eq_true.1 solid w (List.mem_of_find?_eq_some hw)
    have inner := List.all_eq_true.1 letters a ha
    rw [same] at inner
    cases inner

end FontShorthand

namespace Candidates

theorem feature_of_lookup {property : Text} {c : Category}
    (h : wholeValues.lookup property = some c) : c.feature = .typography := by
  have features : ∀ e ∈ wholeValues, e.2.feature = .typography := by decide
  exact features _ (mem_of_lookup_eq_some h)

end Candidates

/-- The literals of a longhand have no blanks at their ends, but one can be empty. -/
theorem Candidates.Finds.isSolid {d : Declaration} {c : Category} {literal : Text}
    (h : Finds d c literal) {property : Text} (hc : wholeValues.lookup property = some c)
    (trimmed : d.value ≠ [] → IsSolid d.value) (hne : literal ≠ []) : IsSolid literal := by
  have category : c ∈ wholeValues.map Prod.snd := List.mem_map_of_mem (mem_of_lookup_eq_some hc)
  cases h with
  | shorthandSize _ hl => exact FontShorthand.isSolid_size hl
  | shorthandLineHeight _ hl => exact FontShorthand.isSolid_lineHeight hl
  | shorthandWeight _ hl => exact FontShorthand.isSolid_weight hl
  | whole => exact trimmed hne
  | spacing | borderWidth | radius | shadow | duration | easing | family | shorthandFamily =>
      exact absurd category (by decide)

/-! ### One reference -/

theorem eq_of_infix_reference {name other : Text} (hn : TokenName.Valid name)
    (ho : TokenName.Valid other) (h : reference name <:+: reference other) : name = other := by
  by_contra different
  have plain {c : Char} (hc : TokenName.isPart c = false) : c ∉ name := fun mem => by
    rw [hn.parts c mem] at hc
    cases hc
  have whole : Inserted [other] [] (reference other) := .whole [] (by simp)
  have inside := whole.infix_of_infix (p := name) (by simpa using ho) (by simpa using different)
    ⟨plain (by decide), plain (by decide), plain (by decide)⟩ h
  simp [reference] at inside

/-- A literal that stands alone in a reference or beside it. -/
def TokenName.Exposes (name literal : Text) : Prop :=
  literal = [] ∨ ∃ part ∈ TokenName.loneParts name, Spells literal part

section Value

variable {name blanks : Text} (hb : ∀ c ∈ blanks, isBlank c)
include hb

theorem lone_reference_append_iff (hv : TokenName.Valid name) {literal : Text}
    (solid : literal ≠ [] → IsSolid literal) :
    Lone .anyCase literal (reference name ++ blanks) ↔ TokenName.Exposes name literal := by
  by_cases hne : literal = []
  · subst hne
    refine ⟨fun _ => .inl rfl, fun _ => ⟨reference name, blanks, rfl, rfl, ?_, ?_⟩⟩
    · rw [reference, List.getLast?_concat]
      decide
    · exact not_joinsPrevious_append (s := []) hb
  · rw [lone_append_blanks_iff hb (solid hne), lone_reference_iff hv hne, TokenName.Exposes,
      or_iff_right hne]

/-- Literals that are longer than a value, or as long and others, leave it. -/
theorem foldl_replaceLone_longer {v : Text} {entries : List (Text × Text)}
    (solid : ∀ e ∈ entries, e.1 ≠ [] → IsSolid e.1)
    (h : ∀ e ∈ entries, v.length ≤ e.1.length ∧ ¬ Spells e.1 v) :
    entries.foldl (fun v e => replaceLone .anyCase e.1 (reference e.2) v) (v ++ blanks) =
      v ++ blanks := by
  refine List.foldlRecOn (motive := (· = v ++ blanks)) entries _ rfl fun t same e he => ?_
  obtain ⟨long, other⟩ := h e he
  have hne : e.1 ≠ [] := by
    intro nil
    rw [nil] at long other
    obtain rfl := List.length_eq_zero_iff.1 (Nat.le_zero.1 long)
    exact other (.refl [])
  rw [same, replaceLone_of_not_lone]
  rwa [lone_append_blanks_iff hb (solid e he hne), lone_iff_spells long]

end Value

/-- The empty literal stands alone on both sides of a blank. -/
theorem trim_replaceLone_nil (name : Text) {c : Char} (hc : isBlank c) :
    trim (replaceLone .anyCase [] (reference name) [c]) ≠ reference name := by
  have before : standsAlone none [c] := by
    rw [standsAlone, nextIs, joinsPrevious_of_isBlank hc]
    rfl
  have after : standsAlone (some c) [] := by
    have alone : Length.joinsNext c = false := by
      by_contra joins
      rw [Length.not_isBlank_of_joinsNext (Bool.not_eq_false _ ▸ joins)] at hc
      cases hc
    rw [standsAlone, Option.any_some, alone]
    rfl
  have text : replaceLone .anyCase [] (reference name) [c] =
      reference name ++ c :: reference name := by
    change insertAlone (reference name) none [c] = _
    rw [insertAlone, insertAlone, if_pos before, if_pos after, List.append_nil]
  have solid := (isSolid_reference name).append (isSolid_reference name) [c]
  have whole := solid.trim_append (List.forall_mem_nil (isBlank ·))
  rw [List.append_nil] at whole
  rw [text]
  change trim (reference name ++ ([c] ++ reference name)) ≠ _
  rw [whole]
  intro same
  have lengths := congrArg List.length same
  simp at lengths

/-- A text that later literals make a reference with another name was that reference before, and
they leave it. -/
theorem trim_foldl_replaceLone_iff {name t : Text} (hv : TokenName.Valid name)
    {entries : List (Text × Text)} (he : ∀ e ∈ entries, TokenName.Valid e.2 ∧ e.2 ≠ name) :
    trim (entries.foldl (fun v e => replaceLone .anyCase e.1 (reference e.2) v) t) =
        reference name ↔ trim t = reference name ∧ ∀ e ∈ entries, ¬ Lone .anyCase e.1 t := by
  constructor
  · induction entries generalizing t with
    | nil => exact fun h => ⟨h, List.forall_mem_nil _⟩
    | cons e entries ih =>
        intro h
        obtain ⟨valid, other⟩ := he e List.mem_cons_self
        obtain ⟨trimmed, later⟩ := ih (fun e' he' => he e' (List.mem_cons_of_mem e he')) h
        dsimp only at trimmed later
        have left : ¬ Lone .anyCase e.1 t := by
          intro alone
          have put := (isSolid_reference e.2).infix_trim_iff _ |>.2 (infix_replaceLone alone)
          rw [trimmed] at put
          exact other (eq_of_infix_reference valid hv put)
        rw [replaceLone_of_not_lone left] at trimmed later
        exact ⟨trimmed, List.forall_mem_cons.2 ⟨left, later⟩⟩
  · rintro ⟨trimmed, left⟩
    have fixed := List.foldlRecOn (motive := (· = t)) entries
      (fun v e => replaceLone .anyCase e.1 (reference e.2) v) rfl
      fun v same e he => by rw [same, replaceLone_of_not_lone (left e he)]
    rw [fixed, trimmed]

namespace TokenMap

variable {m : TokenMap} {v blanks : Text} {before later : List (Text × Text)} {e : Text × Text}

/-- The first literal, longest first, that is a value up to letter case. -/
structure Splits (m : TokenMap) (v : Text) (before : List (Text × Text)) (e : Text × Text)
    (later : List (Text × Text)) : Prop where
  entries : m.byLength = before ++ e :: later
  others : ∀ e' ∈ before, ¬ Spells e'.1 v
  same : Spells e.1 v

theorem exists_splits (h : ∃ e ∈ m.entries, Spells e.1 v) :
    ∃ before e later, m.Splits v before e later := by
  classical
  obtain ⟨e, he, same⟩ := h
  have found : (m.byLength.find? fun e => Spells e.1 v).isSome :=
    List.find?_isSome.2 ⟨e, mem_byLength.2 he, decide_eq_true same⟩
  obtain ⟨first, found⟩ := Option.isSome_iff_exists.1 found
  obtain ⟨same, before, later, entries, others⟩ := List.find?_eq_some_iff_append.1 found
  exact ⟨before, first, later, entries, by simpa using others, of_decide_eq_true same⟩

namespace Splits

variable (h : m.Splits v before e later) (solid : ∀ e ∈ m.entries, e.1 ≠ [] → IsSolid e.1)
include h

theorem mem_entries {e' : Text × Text} (he : e' ∈ before ++ e :: later) : e' ∈ m.entries :=
  mem_byLength.1 (h.entries ▸ he)

theorem ne_name (distinct : m.values.Nodup) : ∀ e' ∈ later, e'.2 ≠ e.2 := by
  have values : (m.byLength.map Prod.snd).Nodup :=
    ((List.mergeSort_perm _ _).map Prod.snd).nodup_iff.2 distinct
  rw [h.entries, List.map_append, List.map_cons, List.nodup_append] at values
  intro e' he' same
  exact (List.nodup_cons.1 values.2.1).1 (same ▸ List.mem_map_of_mem he')

include solid

theorem substituteLone_eq (hb : ∀ c ∈ blanks, isBlank c) :
    m.substituteLone .anyCase (v ++ blanks) =
      later.foldl (fun v e => replaceLone .anyCase e.1 (reference e.2) v)
        (replaceLone .anyCase e.1 (reference e.2) (v ++ blanks)) := by
  have lengths := m.pairwise_byLength
  rw [h.entries, List.pairwise_append] at lengths
  have longer := @foldl_replaceLone_longer blanks hb v before
    (fun e' he' => solid e' (h.mem_entries (by simp [he'])))
    fun e' he' => ⟨h.same.length_eq ▸ lengths.2.2 e' he' e (by simp), h.others e' he'⟩
  change m.byLength.foldl (fun v e => replaceLone .anyCase e.1 (reference e.2) v) _ = _
  rw [h.entries, List.foldl_append, longer, List.foldl_cons]

/-- A value becomes the reference of its token alone if it is not empty and no later literal stands
alone in this reference or beside it. -/
theorem trim_substituteLone_iff (valid : ∀ e ∈ m.entries, TokenName.Valid e.2)
    (distinct : m.values.Nodup) (hb : ∀ c ∈ blanks, isBlank c)
    (single : v = [] → blanks.length = 1) :
    trim (m.substituteLone .anyCase (v ++ blanks)) = reference e.2 ↔
      v ≠ [] ∧ ∀ e' ∈ later, ¬ TokenName.Exposes e.2 e'.1 := by
  have name := valid e (h.mem_entries (by simp))
  have others (e') (he' : e' ∈ later) : TokenName.Valid e'.2 ∧ e'.2 ≠ e.2 :=
    ⟨valid e' (h.mem_entries (by simp [he'])), h.ne_name distinct e' he'⟩
  rw [h.substituteLone_eq solid hb, trim_foldl_replaceLone_iff name others]
  by_cases empty : v = []
  · subst empty
    obtain ⟨c, rfl⟩ := List.length_eq_one_iff.1 (single rfl)
    have twice := trim_replaceLone_nil e.2 (hb c (by simp))
    rw [h.same.symm.eq_nil, List.nil_append]
    exact iff_of_false (fun whole => twice whole.1) fun filled => filled.1 rfl
  · have filled : e.1 ≠ [] := fun nil => empty (nil ▸ h.same).eq_nil
    rw [replaceLone_of_spells (solid e (h.mem_entries (by simp)) filled) h.same hb,
      (isSolid_reference e.2).trim_append hb]
    refine and_congr (iff_of_true rfl empty) (forall₂_congr fun e' he' => not_congr ?_)
    exact lone_reference_append_iff hb name (solid e' (h.mem_entries (by simp [he'])))

end Splits

/-- A value has become the reference of a token that is the value up to letter case. -/
def Refers (m : TokenMap) (v v' : Text) : Prop :=
  ∃ e ∈ m.entries, Spells e.1 v ∧ v' = reference e.2

/-- A value is not empty, and no literal after the one of its token is found in its reference. -/
def Spared (m : TokenMap) (v : Text) : Prop :=
  v ≠ [] ∧ ∀ before e later, m.Splits v before e later →
    ∀ e' ∈ later, ¬ TokenName.Exposes e.2 e'.1

/-- Values that have a token become the reference of the first one alone under a condition on the
later ones. -/
structure RefersFirst (m : TokenMap) (v v' : Text) : Prop where
  token : ∃ e ∈ m.entries, Spells e.1 v
  first_iff : ∀ before e later, m.Splits v before e later →
    (v' = reference e.2 ↔ v ≠ [] ∧ ∀ e' ∈ later, ¬ TokenName.Exposes e.2 e'.1)

/-- No two literals are one up to letter case. -/
def CaseApart (m : TokenMap) : Prop :=
  ∀ e ∈ m.entries, ∀ e' ∈ m.entries, Spells e.1 e'.1 → e = e'

theorem RefersFirst.refers_iff {v' : Text} (h : m.RefersFirst v v') (apart : m.CaseApart) :
    m.Refers v v' ↔ m.Spared v := by
  constructor
  · rintro ⟨e, he, same, new⟩
    have clear {before e₀ later} (splits : m.Splits v before e₀ later) :
        v ≠ [] ∧ ∀ e' ∈ later, ¬ TokenName.Exposes e₀.2 e'.1 := by
      have one := apart e he e₀ (splits.mem_entries (by simp)) (same.trans splits.same.symm)
      exact (h.first_iff before e₀ later splits).1 (one ▸ new)
    obtain ⟨before, e₀, later, splits⟩ := exists_splits ⟨e, he, same⟩
    exact ⟨(clear splits).1, fun _ _ _ splits => (clear splits).2⟩
  · rintro ⟨hne, clear⟩
    obtain ⟨before, e, later, splits⟩ := exists_splits h.token
    exact ⟨e, splits.mem_entries (by simp), splits.same,
      (h.first_iff before e later splits).2 ⟨hne, clear before e later splits⟩⟩

/-- Where a property has an empty literal, no value of it is spared. -/
theorem not_spared_of_nil (h : ∃ e ∈ m.entries, Spells e.1 v) {e : Text × Text}
    (he : e ∈ m.entries) (empty : e.1 = []) : ¬ m.Spared v := by
  rintro ⟨hne, clear⟩
  obtain ⟨before, e₀, later, splits⟩ := exists_splits h
  have lengths := m.pairwise_byLength
  have listed := mem_byLength.2 he
  rw [splits.entries] at lengths listed
  have filled : 0 < e₀.1.length := by
    rw [← splits.same.length_eq]
    exact List.length_pos_of_ne_nil hne
  rcases List.mem_append.1 listed with longer | listed
  · have := (List.pairwise_append.1 lengths).2.2 e longer e₀ (by simp)
    rw [empty, List.length_nil] at this
    omega
  · rcases List.mem_cons.1 listed with rfl | listed
    · rw [empty] at filled
      exact absurd filled (by simp)
    · exact clear before e₀ later splits e listed (.inl empty)

end TokenMap

/-! ### Sheets -/

/-- A value that is read has blanks after it only, and one of them if it is blank. -/
theorem Value.Settled.exists_blanks {v : Text} (h : Value.Settled v) :
    ∃ blanks, (∀ c ∈ blanks, isBlank c) ∧ v = trim v ++ blanks ∧
      (trim v = [] → blanks.length = 1) := by
  by_cases empty : trim v = []
  · obtain ⟨a, b, text, ha, hb⟩ := exists_trim v
    rw [empty, List.nil_append] at text
    have blank : ∀ c ∈ v, isBlank c := by
      rw [text]
      exact List.forall_mem_append.2 ⟨ha, hb⟩
    refine ⟨v, blank, by rw [empty, List.nil_append], fun _ => ?_⟩
    have none : trimLeft (' ' :: v) = [] :=
      trimLeft_eq_nil_iff.2 (List.forall_mem_cons.2 ⟨rfl, blank⟩)
    have lengths := congrArg List.length h
    rw [Block.valueOf, none] at lengths
    simpa using lengths.symm
  · have read : Block.valueOf (' ' :: v) = v := h
    have blanks := @Block.exists_blanks_of_valueOf (' ' :: v) (by rwa [read])
    rw [read] at blanks
    obtain ⟨blanks, hb, text⟩ := blanks
    exact ⟨blanks, hb, text, fun nil => absurd nil empty⟩

namespace TokenTables

variable {tokens : TokenTables} {weights : List (Text × Template)} {features : List Feature}
  {property v : Text} {c : Category}

/-- What the passes other than that for colors make of a longhand. -/
theorem trim_applyAll_longhand (hc : Candidates.wholeValues.lookup property = some c)
    (enabled : features.contains .typography) (hv : Value.Settled v) :
    trim (Pass.applyAll (tokens.wholePasses features ++ laterPasses weights tokens features)
      property v) = trim ((tokens.table c).substituteLone .anyCase v) := by
  have known : property ∈ Candidates.wholeValues.map Prod.fst :=
    List.mem_map_of_mem (mem_of_lookup_eq_some hc)
  have families : ∀ p ∈ Candidates.wholeValues.map Prod.fst,
      (p ≠ "font".toList ∧ p ≠ "font-family".toList) ∧
      (decide (p = "box-shadow".toList) = false ∧ decide (p = "border-radius".toList) = false) ∧
      Property.isSpacing p = false ∧ Property.isBorder p = false ∧
      Property.isMotion p = false := by decide
  obtain ⟨⟨font, family⟩, ⟨shadow, radius⟩, spacing, border, motion⟩ := families property known
  have typography : typographyValue weights tokens property v =
      (tokens.table c).substituteLone .anyCase v := by
    rw [typographyValue, if_neg family, if_neg font, hc]
  rw [laterPasses, Pass.applyAll_passesIf_append hv
    (forall_mem_wholePasses (leaves_onFamily shadow) (leaves_onFamily radius) features) enabled,
    Pass.applyAll_of_leaves (forall_mem_latePasses (leaves_onFamily spacing)
      (leaves_onFamily border) (leaves_onFamily motion) features) (Pass.settled_apply hv),
    Pass.apply, Block.trim_valueOf, trim_cons_of_blank rfl, typography]

end TokenTables

/-- A declaration before and after a sheet is rewritten: a longhand of typography has become the
reference of its token if and only if this is spared by the literals that come later. -/
structure Declaration.RefersAlone (tokens : TokenTables) (d d' : Declaration) : Prop where
  selector_eq : d'.selector = d.selector
  property_eq : d'.property = d.property
  first : ∀ c, Candidates.wholeValues.lookup d.property = some c →
    (tokens.table c).RefersFirst d.value d'.value
  refers_iff : ∀ c, Candidates.wholeValues.lookup d.property = some c →
    (tokens.table c).CaseApart →
      ((tokens.table c).Refers d.value d'.value ↔ (tokens.table c).Spared d.value)

namespace Tokenization

variable {config : Config} {t : Text} {r : Tokenization}

section

variable (h : ofText config t = .ok r)
  (prefixes : config.tokenPrefix = Config.default.tokenPrefix)
  (enabled : config.has .typography)
include h prefixes enabled

theorem refersFirst_of_mem_raw {d : Declaration} (hd : d ∈ Declaration.raw r.converted)
    {c : Category} (hc : Candidates.wholeValues.lookup d.property = some c) :
    (r.tokens.table c).RefersFirst (trim d.value)
      (trim (Pass.applyAll (r.tokens.wholePasses config.features ++ TokenTables.laterPasses
        (FontShorthand.plainTemplates r.tokens) r.tokens config.features) d.property d.value)) := by
  obtain ⟨palette, -, -, -, -, tokens, -⟩ := exists_parts h
  have valid := valid_of_mem_table h prefixes c
  have distinct : (r.tokens.table c).values.Nodup := tokens ▸ TokenTables.nodup_values_table _ c
  have solid : ∀ e ∈ (r.tokens.table c).entries, e.1 ≠ [] → IsSolid e.1 := by
    intro e he hne
    obtain ⟨d', hd', found⟩ := exists_finds h he
    rw [Declaration.parse_eq_map_raw] at hd'
    obtain ⟨d', -, rfl⟩ := List.mem_map.1 hd'
    exact found.isSolid hc (fun filled => .trim filled) hne
  have settled := Declaration.settled_of_mem_raw d hd
  refine ⟨?_, fun before e later splits => ?_⟩
  · have parsed := Declaration.parse_eq_map_raw r.converted ▸ List.mem_map_of_mem hd
    have typography : c.feature = .typography := Candidates.feature_of_lookup hc
    obtain ⟨name, token⟩ := exists_token_of_finds h parsed (typography ▸ enabled) (.of_lookup hc)
    exact ⟨_, OrderedMap.mem_of_get?_eq_some token, .refl _⟩
  · obtain ⟨blanks, hb, text, single⟩ := settled.exists_blanks
    have iff := splits.trim_substituteLone_iff solid valid distinct hb single
    rwa [← text, ← TokenTables.trim_applyAll_longhand hc enabled settled] at iff

/-- With the default prefixes and typography, and without the feature for colors, a longhand of a
sheet that is tokenized becomes the reference of its token alone if and only if it is not empty and
no later literal of its property is empty or a part of this reference that stands alone. -/
theorem longhand_references (colorless : config.has .colors = false) :
    ∃ out, r.tokens.substitute r.config.features r.converted = .ok out ∧
      List.Forall₂ (Declaration.RefersAlone r.tokens) (Declaration.parse r.converted)
        (Declaration.parse out) := by
  obtain ⟨out, rewritten, parsed⟩ := exists_substitute_of_colorless h prefixes colorless
  refine ⟨out, rewritten, ?_⟩
  rw [parsed, Declaration.parse_eq_map_raw, List.forall₂_map_left_iff, List.forall₂_map_right_iff,
    List.forall₂_same]
  intro d hd
  have first {c : Category} (hc : Candidates.wholeValues.lookup d.property = some c) :=
    refersFirst_of_mem_raw h prefixes enabled hd hc
  exact ⟨rfl, rfl, fun c hc => first hc, fun c hc apart => (first hc).refers_iff apart⟩

end

/-- Settings for typography only. -/
def typographic : Config := { features := [.typography] }

/-- A sheet with one font size in two spellings and a line height. -/
def spelledSize : Text := "a{font-size:12PX;line-height:1.5}b{font-size:12px}".toList

theorem exists_ofText_typographic {t : Text}
    (ht : ∀ d ∈ Declaration.parse t, Color.literals d.value = []) :
    ∃ r, ofText typographic t = .ok r :=
  exists_ofText_of_colorless ht fun prefers => Bool.noConfusion prefers

theorem longhand_references_spelledSize : ∃ r, ofText typographic spelledSize = .ok r ∧
    typographic.tokenPrefix = Config.default.tokenPrefix ∧ typographic.has .typography ∧
    typographic.has .colors = false ∧
    ∃ out, r.tokens.substitute r.config.features r.converted = .ok out ∧
      List.Forall₂ (Declaration.RefersAlone r.tokens) (Declaration.parse r.converted)
        (Declaration.parse out) := by
  have parsed : Declaration.parse spelledSize =
      [⟨"a".toList, "font-size".toList, "12PX".toList⟩,
        ⟨"a".toList, "line-height".toList, "1.5".toList⟩,
        ⟨"b".toList, "font-size".toList, "12px".toList⟩] := by cbv
  obtain ⟨r, h⟩ := @exists_ofText_typographic spelledSize (by
    rw [parsed]
    decide +kernel)
  exact ⟨r, h, rfl, rfl, rfl, longhand_references h rfl rfl rfl⟩

/-- A sheet with a font size and an empty one. -/
def emptySize : Text := "a{font-size:12px}b{font-size: }".toList

/-- Neither of the two font sizes becomes the reference of its token alone. -/
theorem not_refers_emptySize : ∃ r out, ofText typographic emptySize = .ok r ∧
    r.tokens.substitute r.config.features r.converted = .ok out ∧
    Declaration.parse r.converted = [⟨"a".toList, "font-size".toList, "12px".toList⟩,
      ⟨"b".toList, "font-size".toList, []⟩] ∧
    List.Forall₂ (fun d d' => ¬ (r.tokens.table .fontSizes).Refers d.value d'.value)
      (Declaration.parse r.converted) (Declaration.parse out) := by
  have parsed : Declaration.parse emptySize = [⟨"a".toList, "font-size".toList, "12px".toList⟩,
      ⟨"b".toList, "font-size".toList, []⟩] := by cbv
  obtain ⟨r, h⟩ := @exists_ofText_typographic emptySize (by
    rw [parsed]
    decide +kernel)
  obtain ⟨palette, -, -, converted, candidates, tokens, -⟩ := exists_parts h
  obtain ⟨out, rewritten, parsed_out⟩ := exists_substitute_of_colorless h rfl rfl
  have same : r.converted = emptySize := converted
  refine ⟨r, out, h, rewritten, same ▸ parsed, ?_⟩
  have keys : (r.tokens.table .fontSizes).keys.Perm ["12px".toList, []] := by
    have counted : ((Candidates.collect (Declaration.parse emptySize)).table .fontSizes).keys =
        ["12px".toList, []] := by
      rw [parsed]
      decide +kernel
    rw [tokens, ← counted, ← same, ← candidates]
    exact TokenTables.keys_table_perm rfl
  have apart : (r.tokens.table .fontSizes).CaseApart := by
    intro e he e' he' spelled
    refine List.inj_on_of_nodup_map (r.tokens.table .fontSizes).nodup_keys he he' ?_
    have listed := keys.mem_iff.1 (List.mem_map_of_mem he)
    have listed' := keys.mem_iff.1 (List.mem_map_of_mem he')
    have lengths := spelled.length_eq
    simp only [List.mem_cons, List.not_mem_nil, or_false] at listed listed'
    rcases listed with first | first <;> rcases listed' with second | second <;>
      rw [first, second] at lengths ⊢ <;> cases lengths
  have empty : ∃ e ∈ (r.tokens.table .fontSizes).entries, e.1 = [] :=
    List.mem_map.1 (keys.mem_iff.2 (by simp))
  rw [parsed_out, Declaration.parse_eq_map_raw, List.forall₂_map_left_iff,
    List.forall₂_map_right_iff, List.forall₂_same]
  intro d hd refers
  have listed := Declaration.parse_eq_map_raw r.converted ▸ List.mem_map_of_mem hd
  have property : d.property = "font-size".toList := by
    rw [same, parsed] at listed
    simp only [List.mem_cons, List.not_mem_nil, or_false] at listed
    rcases listed with listed | listed <;> exact congrArg Declaration.property listed
  have first := refersFirst_of_mem_raw h rfl rfl hd (c := .fontSizes) (by rw [property]; rfl)
  obtain ⟨e, he, nil⟩ := empty
  exact TokenMap.not_spared_of_nil first.token he nil ((first.refers_iff apart).1 refers)

end Tokenization

end DesignTokens
