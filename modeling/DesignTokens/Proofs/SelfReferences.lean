import DesignTokens.Proofs.DocumentDeclarations
import DesignTokens.Proofs.KeptFrames
import Mathlib

/-!
Properties that are defined by themselves. Names of tokens do not depend on the properties of a
stylesheet, so a color in the definition of a property may become a reference to this property. Where
colors stand in values only there is no other way: the other passes leave custom properties as they
are. A line of the blocks refers to its own name if and only if the literal of the token does.
-/
namespace DesignTokens

open Text

/-- A property that a stylesheet makes up. -/
def Property.isCustom (property : Text) : Bool := "--".toList.isPrefixOf property

namespace Declaration

/-- A sheet gives a property a value with a reference to it. -/
def SelfReference (t p : Text) : Prop := ∃ d ∈ parse t, d.property = p ∧ reference p <:+: d.value

/-- The declarations of custom properties. -/
def customs (t : Text) : List Declaration := (parse t).filter (Property.isCustom ·.property)

theorem plain_property {t : Text} {d : Declaration} (h : d ∈ parse t) :
    Property.Plain d.property := by
  obtain ⟨entry, -, h⟩ := List.mem_flatMap.1 h
  obtain ⟨e, he, rfl⟩ := List.mem_map.1 h
  have name := Block.isName_of_mem_entries entry.2.body e he
  have missing {c : Char} (hc : Block.isNameChar c = false) (pos : 0 < c.toNat)
      (low : c.toNat < 65) : c ∉ e.property := by
    intro mem
    rw [name.chars c (mem_of_mem_lower mem pos low)] at hc
    cases hc
  exact ⟨missing (by decide) (by decide) (by decide), missing (by decide) (by decide) (by decide),
    missing (by decide) (by decide) (by decide)⟩

/-- What is asked of the values of a custom property depends on the custom declarations only. -/
theorem exists_congr_customs {t u p : Text} (hp : Property.isCustom p) (h : customs t = customs u)
    (P : Text → Prop) : (∃ d ∈ parse t, d.property = p ∧ P d.value) ↔
      ∃ d ∈ parse u, d.property = p ∧ P d.value := by
  have only (t : Text) : (∃ d ∈ parse t, d.property = p ∧ P d.value) ↔
      ∃ d ∈ customs t, d.property = p ∧ P d.value := by
    constructor
    · rintro ⟨d, hd, rfl, h⟩
      exact ⟨d, List.mem_filter.2 ⟨hd, hp⟩, rfl, h⟩
    · rintro ⟨d, hd, same, h⟩
      exact ⟨d, (List.mem_filter.1 hd).1, same, h⟩
  rw [only, only, h]

end Declaration

open Declaration

namespace Pass

variable {names : List Text}

/-- A pass over values brings in no self-reference but by a name of a token. -/
theorem Inserts.selfReference_run (hn : ∀ name ∈ names, TokenName.Valid name) {p : Pass}
    (h : p.Inserts names) {property : Text} (hp : property ∉ names) {t : Text}
    (self : SelfReference (p.run t) property) : SelfReference t property := by
  cases p with
  | text f => cases h
  | values f =>
      obtain ⟨d, hd, rfl, inside⟩ := self
      have plain := plain_property hd
      rw [h.parse_run (fits_reference hn)] at hd
      obtain ⟨before, hbefore, rfl⟩ := List.mem_map.1 hd
      have solid := isSolid_reference before.property
      have change := (h before.property before.value).change hn
      have old := change.refers _ hp plain ((solid.infix_trim_iff _).1 inside)
      refine ⟨{ before with value := trim before.value }, ?_, rfl, (solid.infix_trim_iff _).2 old⟩
      rw [parse_eq_map_raw]
      exact List.mem_map_of_mem hbefore

theorem selfReference_runAll (hn : ∀ name ∈ names, TokenName.Valid name) {passes : List Pass}
    (h : ∀ p ∈ passes, p.Inserts names) {property : Text} (hp : property ∉ names) {t : Text}
    (self : SelfReference (runAll passes t) property) : SelfReference t property := by
  induction passes generalizing t with
  | nil => exact self
  | cons p passes ih =>
      exact (h p (by simp)).selfReference_run hn hp (ih (fun q hq => h q (by simp [hq])) self)

/-- A pass over values that leaves those of custom properties. -/
def KeepsCustom : Pass → Prop
  | values f => ∀ property v, Property.isCustom property → f property v = v
  | text _ => False

section Customs

variable (hr : ∀ name ∈ names, Value.Fits (reference name))
include hr

theorem KeepsCustom.customs_run {p : Pass} (h : p.KeepsCustom) (hp : p.Inserts names) (t : Text) :
    customs (p.run t) = customs t := by
  cases p with
  | text f => cases h
  | values f =>
      rw [customs, customs, hp.parse_run hr, parse_eq_map_raw, List.filter_map, List.filter_map]
      refine List.map_congr_left fun d hd => ?_
      rw [h d.property d.value (List.mem_filter.1 hd).2]

theorem customs_runAll {passes : List Pass} (h : ∀ p ∈ passes, p.KeepsCustom)
    (hp : ∀ p ∈ passes, p.Inserts names) (t : Text) : customs (runAll passes t) = customs t := by
  induction passes generalizing t with
  | nil => rfl
  | cons p passes ih =>
      have later := ih (fun q hq => h q (by simp [hq])) (fun q hq => hp q (by simp [hq])) (p.run t)
      exact later.trans ((h p (by simp)).customs_run hr (hp p (by simp)) t)

end Customs

end Pass

namespace TokenTables

theorem keepsCustom_onFamily {family : Text → Bool} (f : Text → Text)
    (h : ∀ rest, family ('-' :: '-' :: rest) = false) :
    (Pass.values (onFamily family f)).KeepsCustom := by
  intro property v hp
  obtain ⟨rest, rfl⟩ := List.isPrefixOf_iff_prefix.1 hp
  rw [onFamily, if_neg]
  exact ne_true_of_eq_false (h rest)

theorem keepsCustom_wholePasses (tokens : TokenTables) (features : List Feature) :
    ∀ p ∈ tokens.wholePasses features, p.KeepsCustom :=
  forall_mem_wholePasses (keepsCustom_onFamily _ fun _ => rfl) (keepsCustom_onFamily _ fun _ => rfl)
    features

theorem keepsCustom_latePasses (tokens : TokenTables) (features : List Feature) :
    ∀ p ∈ tokens.latePasses features, p.KeepsCustom :=
  forall_mem_latePasses (keepsCustom_onFamily _ fun _ => rfl) (keepsCustom_onFamily _ fun _ => rfl)
    (keepsCustom_onFamily _ fun _ => rfl) features

theorem keepsCustom_typography (tokens : TokenTables) (weights : List (Text × Template)) :
    (Pass.values (tokens.typographyValue weights)).KeepsCustom := by
  intro property v hp
  have letters : ∀ known ∈ Tokenization.exposed, Property.isCustom known = false := by decide
  apply Tokenization.typographyValue_of_notMem
  · intro known
    rw [letters property known] at hp
    cases hp
  · rintro rfl
    cases hp

end TokenTables

/-- What is asked of the mapped values of a layout can be asked of its values. -/
theorem Sheet.Lays.exists_parse_mapValues_iff {t : Text} {l : Layout} {f : Text → Text}
    (hl : Sheet.Lays t l) (hf : l.Admits f) {P Q : Text → Prop} (h : ∀ v, P (trim (f v)) ↔ Q (trim v))
    (p : Text) : (∃ d ∈ parse (l.mapValues f).text, d.property = p ∧ P d.value) ↔
      ∃ d ∈ parse t, d.property = p ∧ Q d.value := by
  rw [parse_eq_map_raw, parse_eq_map_raw, (hl.mapValues hf).raw_eq, hl.raw_eq]
  simp only [List.mem_map, exists_exists_and_eq_and]
  clear hl hf
  induction l with
  | tail t => simp [Layout.mapValues, Layout.raw]
  | slot front d rest ih => simp [Layout.mapValues, Layout.raw, Block.trim_valueOf, h, ih]

theorem isSolid_of_color {v literal : Text} (h : literal ∈ Color.literals v) : IsSolid literal := by
  rcases Color.eq_of_mem_literals h with ⟨digits, rfl, hex⟩ | ⟨head, hh, args, -, rfl⟩
  · have solid : ∀ c ∈ '#' :: digits, isBlank c = false := by
      intro c hc
      rcases List.mem_cons.1 hc with rfl | digit
      · rfl
      · by_contra blank
        have table := @forall_of_inRanges _ (fun c => !Color.isHexDigit c) (by decide) c
          (eq_true_of_ne_false blank)
        rw [hex c digit] at table
        cases table
    exact ⟨by simp, fun c hc => solid c (List.mem_of_head? hc),
      fun c hc => solid c (List.mem_of_getLast? hc)⟩
  · have heads : ∀ head ∈ Color.callHeads, head.head?.any (isBlank · = false) := by decide
    have first := heads head hh
    cases head with
    | nil => cases first
    | cons c head =>
        refine ⟨by simp, by simpa using first, fun c hc => ?_⟩
        rw [List.getLast?_concat] at hc
        cases hc
        rfl

/-- A token is given its literal, or a value that is written anew. -/
theorem Theme.value_cases {theme : Theme} {s : Series} {literal value : Text}
    (h : theme.value .default s literal = .ok value) :
    (∀ c ∈ value, isWritten c) ∨ ∃ c ≠ .durations, s = .category c ∧ value = literal := by
  cases s with
  | color =>
      obtain ⟨color, -, h⟩ := exists_of_bind_eq_ok h
      dsimp only at h
      split at h
      · obtain ⟨dark, -, h⟩ := exists_of_bind_eq_ok h
        cases h
        exact .inl dark.isWritten_text
      · cases h
        exact .inl color.isWritten_text
  | category c =>
      by_cases times : c = .durations
      · rw [times] at h
        cases h
        exact .inl (Duration.isWritten_inSeconds literal)
      · have same : theme.value .default (.category c) literal = .ok literal := by
          by_cases spacing : c = .spacing
          · rw [spacing]
            rfl
          · exact Theme.value_eq spacing times literal
        rw [same] at h
        cases h
        exact .inr ⟨c, times, rfl, rfl⟩

namespace Tokenization

variable {t : Text} {r : Tokenization}

namespace Made

variable {palette : Palette} (m : Made t r palette)
include m

theorem customs_uncolored : customs r.uncolored = customs r.converted :=
  Pass.customs_runAll m.fits_rootNames (r.tokens.keepsCustom_wholePasses _) m.inserts_wholePasses _

theorem customs_passes : customs (Pass.runAll r.passes r.converted) = customs r.colored := by
  rw [passes, Pass.runAll_append]
  refine Pass.customs_runAll m.fits_rootNames (fun p hp => ?_) m.inserts_laterPasses _
  rcases List.mem_cons.1 hp with rfl | late
  · exact r.tokens.keepsCustom_typography _
  · exact r.tokens.keepsCustom_latePasses _ p late

theorem isSolid_color : ∀ e ∈ r.tokens.colors.entries, IsSolid e.1 := by
  intro e he
  obtain ⟨d, -, found⟩ := m.finds_color he
  exact isSolid_of_color found

theorem selfReference_colored_iff {l : Layout} (hl : Sheet.Lays r.uncolored l)
    (hc : ∀ e ∈ r.tokens.colors.entries, l.Confines e.1) (p : Text) :
    SelfReference r.colored p ↔ ∃ d ∈ parse r.uncolored, d.property = p ∧
      reference p <:+: r.tokens.colors.substituteAll d.value := by
  obtain ⟨admits, text⟩ := hl.substituteAll_text m.replaceable_color hc
  have solid := isSolid_reference p
  have items : ∀ e ∈ r.tokens.colors.byLength, IsSolid e.1 :=
    fun e he => m.isSolid_color e (TokenMap.mem_byLength.1 he)
  rw [SelfReference, m.colored_eq, text]
  refine hl.exists_parse_mapValues_iff admits (P := fun v => reference p <:+: v)
    (Q := fun v => reference p <:+: r.tokens.colors.substituteAll v) (fun v => ?_) p
  rw [solid.infix_trim_iff]
  exact (infix_replaceEach_trim_iff items solid v).symm

theorem isCustom_of_mem_rootNames {p : Text} (hp : p ∈ r.document.rootNames) :
    Property.isCustom p := List.isPrefixOf_iff_prefix.2 (m.valid_rootNames p hp).dashes

theorem selfReference_passes {p : Text} (self : SelfReference (Pass.runAll r.passes r.converted) p) :
    SelfReference r.colored p := by
  by_cases custom : Property.isCustom p
  · exact (exists_congr_customs custom m.customs_passes _).1 self
  · rw [passes, Pass.runAll_append] at self
    exact Pass.selfReference_runAll m.valid_rootNames m.inserts_laterPasses
      (fun hp => custom (m.isCustom_of_mem_rootNames hp)) self

theorem selfReference_uncolored {p : Text} (self : SelfReference r.uncolored p) :
    SelfReference r.converted p := by
  by_cases custom : Property.isCustom p
  · exact (exists_congr_customs custom m.customs_uncolored _).1 self
  · exact Pass.selfReference_runAll m.valid_rootNames m.inserts_wholePasses
      (fun hp => custom (m.isCustom_of_mem_rootNames hp)) self

/-- Where colors stand in values only, a self-reference is one of the sheet or that of a color. -/
theorem selfReference_or_of_colored {l : Layout} (hl : Sheet.Lays r.uncolored l)
    (hc : ∀ e ∈ r.tokens.colors.entries, l.Confines e.1) {p : Text}
    (self : SelfReference r.colored p) :
    SelfReference r.uncolored p ∨ ∃ d ∈ parse r.uncolored, d.property = p ∧
      ∃ e ∈ r.tokens.colors.entries, e.2 = p ∧ e.1 <:+: d.value := by
  obtain ⟨d, hd, same, inside⟩ := (m.selfReference_colored_iff hl hc p).1 self
  have items : ∀ e ∈ r.tokens.colors.byLength,
      (Apart e.1 ∧ StartsColor e.1) ∧ TokenName.Valid e.2 := by
    intro e he
    have entry := TokenMap.mem_byLength.1 he
    obtain ⟨_, _, found⟩ := m.finds_color entry
    exact ⟨apart_of_color found, (m.replaceable_color e entry).2⟩
  rcases infix_of_infix_replaceEach items (same ▸ plain_property hd) inside with
    already | ⟨e, he, hp, color⟩
  · exact .inl ⟨d, hd, same, already⟩
  · exact .inr ⟨d, hd, same, e, TokenMap.mem_byLength.1 he, hp, color⟩

/-- A line of the blocks refers to its own name if and only if its literal does; times are written
anew. -/
theorem selfReference_line_iff (name : Text) :
    (∃ value, DocumentLine.declaration name value ∈ r.document.root ++ r.document.dark ∧
        reference name <:+: value) ↔
      ∃ c ≠ .durations, ∃ e ∈ (r.tokens.table c).entries, e.2 = name ∧ reference name <:+: e.1 := by
  have written {v : Text} (h : ∀ c ∈ v, isWritten c) : ¬ reference name <:+: v := fun inside =>
    absurd (h 'v' (inside.subset (by simp [reference]))) (by decide)
  have literal {theme : Theme} {ls : List DocumentLine}
      (h : TokenDocument.Declares theme .default r.tokens theme.series ls) {value : Text}
      (hl : .declaration name value ∈ ls) (inside : reference name <:+: value) :
      ∃ c ≠ .durations, ∃ e ∈ (r.tokens.table c).entries, e.2 = name ∧ reference name <:+: e.1 := by
    obtain ⟨s, -, -, e, he, same, hv⟩ := h.mem_iff.1 hl
    rcases Theme.value_cases hv with anew | ⟨c, hc, rfl, rfl⟩
    · exact absurd inside (written anew)
    · exact ⟨c, hc, e, he, same, inside⟩
  obtain ⟨light, dark⟩ := TokenDocument.declares_ofTokens m.document
  constructor
  · rintro ⟨value, hl, inside⟩
    exact (List.mem_append.1 hl).elim (literal light · inside) (literal dark · inside)
  · rintro ⟨c, hc, e, he, same, inside⟩
    refine ⟨e.1, List.mem_append_left _ (light.mem_iff.2 ?_), inside⟩
    refine ⟨.category c, ?_, ?_, e, he, same, ?_⟩
    · cases c <;> simp [Theme.series, Theme.typography] at hc ⊢
    · cases c <;> rfl
    · cases c <;> first | rfl | exact absurd rfl hc

end Made

/-- The value of a property has a color whose token is named like the property. -/
def ColorsItself (r : Tokenization) (p : Text) : Prop :=
  ∃ d ∈ parse r.converted, d.property = p ∧
    ∃ e ∈ r.tokens.colors.entries, e.2 = p ∧ e.1 <:+: d.value

/-- A stylesheet is rewritten by default, and only the pass for colors brings in self-references of
properties. Where no color with a token starts outside of the values, a property that refers to
itself did so before, or its value has a color whose token is named like it; a custom property refers
to itself if and only if it does with the colors of its value replaced. A line of the blocks refers to
its own name if and only if the literal of the token does, where this is no time. -/
theorem selfReference_substitute (h : ofText .default t = .ok r) :
    ∃ out, r.tokens.substitute r.config.features r.converted = .ok out ∧
      (∀ p, (SelfReference r.uncolored p → SelfReference r.converted p) ∧
        (SelfReference out p → SelfReference r.colored p)) ∧
      (∃ l, Sheet.Lays r.uncolored l) ∧
      (∀ l, Sheet.Lays r.uncolored l → (∀ e ∈ r.tokens.colors.entries, l.Confines e.1) → ∀ p,
        (SelfReference out p → SelfReference r.converted p ∨ r.ColorsItself p) ∧
        (Property.isCustom p → (SelfReference out p ↔ ∃ d ∈ parse r.converted, d.property = p ∧
          reference p <:+: r.tokens.colors.substituteAll d.value))) ∧
      ∀ name, (∃ value, .declaration name value ∈ r.document.root ++ r.document.dark ∧
          reference name <:+: value) ↔
        ∃ c ≠ .durations, ∃ e ∈ (r.tokens.table c).entries,
          e.2 = name ∧ reference name <:+: e.1 := by
  obtain ⟨palette, m⟩ := exists_made h
  refine ⟨_, m.substitute_eq, fun p => ⟨m.selfReference_uncolored, m.selfReference_passes⟩,
    Sheet.exists_lays _, fun l hl hc p => ⟨fun self => ?_, fun custom => ?_⟩,
    m.selfReference_line_iff⟩
  · rcases m.selfReference_or_of_colored hl hc (m.selfReference_passes self) with
      already | ⟨d, hd, same, e, he, hp, color⟩
    · exact .inl (m.selfReference_uncolored already)
    · have custom := m.isCustom_of_mem_rootNames (hp ▸ m.declared_color e he)
      refine .inr ((exists_congr_customs custom m.customs_uncolored fun v =>
        ∃ e ∈ r.tokens.colors.entries, e.2 = p ∧ e.1 <:+: v).1 ⟨d, hd, same, e, he, hp, color⟩)
  · have passes := exists_congr_customs custom m.customs_passes fun v => reference p <:+: v
    have whole := exists_congr_customs custom m.customs_uncolored fun v =>
      reference p <:+: r.tokens.colors.substituteAll v
    exact (passes.trans (m.selfReference_colored_iff hl hc p)).trans whole

theorem not_selfReference_of_parse {ds : List Declaration} (h : parse t = ds)
    (hd : ∀ d ∈ ds, ¬ reference d.property <:+: d.value) (p : Text) : ¬ SelfReference t p := by
  rintro ⟨d, mem, rfl, inside⟩
  exact hd d (h ▸ mem) inside

/-- A sheet with a color as the value of a custom property. -/
def customColor : Text := ":root\x7b--x:#abc\x7d".toList

theorem selfReference_substitute_customColor : ∃ r out, ofText .default customColor = .ok r ∧
    r.tokens.substitute r.config.features r.converted = .ok out ∧
      (SelfReference out "--x".toList ↔ ∃ d ∈ parse r.converted, d.property = "--x".toList ∧
        reference "--x".toList <:+: r.tokens.colors.substituteAll d.value) ∧
      ∀ p, ¬ SelfReference out p := by
  have parsed : parse customColor = [⟨":root".toList, "--x".toList, "#abc".toList⟩] := by cbv
  obtain ⟨r, palette, h, m, colors, uncolored⟩ := exists_ofText_single (by simp) parsed
  obtain ⟨l, laid, confined⟩ := @exists_confined_single customColor ":root".toList "--x".toList
    ⟨by simp, by simp [Sheet.isBrace]⟩ ⟨by simp, List.all_eq_true.1 (by decide)⟩ (by decide) rfl
  have all : ∀ e ∈ r.tokens.colors.entries, l.Confines e.1 := by
    rw [colors]
    exact List.forall_mem_singleton.2 confined
  rw [← uncolored] at laid
  obtain ⟨out, substituted, -, -, self, -⟩ := selfReference_substitute h
  refine ⟨r, out, h, substituted, (self l laid all _).2 rfl, fun p found => ?_⟩
  rcases (self l laid all p).1 found with before | ⟨d, hd, same, e, he, hp, -⟩
  · rw [m.converted] at before
    exact not_selfReference_of_parse parsed (by decide +kernel) p before
  · rw [m.converted, parsed] at hd
    rw [colors] at he
    obtain rfl := List.mem_singleton.1 hd
    obtain rfl := List.mem_singleton.1 he
    exact absurd (same.trans hp.symm) (by decide)

/-- A sheet with a color as the value of a property named like the token of the color. -/
def namesakeColor : Text := ":root\x7b--color-fg:#abc\x7d".toList

/-- A sheet with a color in front of a property. -/
def strayColor : Text := "a\x7b#abc:--p:var(--p);color:#abc\x7d".toList

/-- A sheet with a size that is a reference to the token of the size. -/
def namesakeSize : Text := "a\x7bfont-size:var(--fs-1)\x7d".toList

/-- A self-reference is brought in by a color that is replaced in a value, by one that is replaced
outside of the values, and by a literal in a block. -/
theorem selfReference_introduced :
    (∃ r out, ofText .default namesakeColor = .ok r ∧
      r.tokens.substitute r.config.features r.converted = .ok out ∧
        (∀ p, ¬ SelfReference r.converted p) ∧ SelfReference out "--color-fg".toList) ∧
    (∃ r out, ofText .default strayColor = .ok r ∧
      r.tokens.substitute r.config.features r.converted = .ok out ∧
        (∀ p, ¬ SelfReference r.converted p) ∧ SelfReference out "--p".toList) ∧
    ∃ r, ofText .default namesakeSize = .ok r ∧ (∀ p, ¬ SelfReference r.converted p) ∧
      ∃ value, .declaration "--fs-1".toList value ∈ r.document.root ++ r.document.dark ∧
        reference "--fs-1".toList <:+: value := by
  refine ⟨?_, ?_, ?_⟩
  · have parsed : parse namesakeColor =
      [⟨":root".toList, "--color-fg".toList, "#abc".toList⟩] := by cbv
    obtain ⟨r, palette, h, m, colors, uncolored⟩ := exists_ofText_single (by simp) parsed
    have colored : r.colored = ":root\x7b--color-fg:var(--color-fg)\x7d".toList := by
      rw [m.colored_of_single colors, uncolored]
      decide +kernel
    have after : parse r.colored =
        [⟨":root".toList, "--color-fg".toList, "var(--color-fg)".toList⟩] := by
      rw [colored]
      cbv
    refine ⟨r, _, h, m.substitute_eq, ?_, ?_⟩
    · rw [m.converted]
      exact not_selfReference_of_parse parsed (by decide +kernel)
    · refine (exists_congr_customs rfl m.customs_passes fun v => reference _ <:+: v).2 ?_
      rw [after]
      exact ⟨_, List.mem_singleton_self _, rfl, List.infix_refl _⟩
  · have parsed : parse strayColor = [⟨"a".toList, "abc".toList, "--p:var(--p)".toList⟩,
      ⟨"a".toList, "color".toList, "#abc".toList⟩] := by cbv
    have literals : ∀ d ∈ [(⟨"a".toList, "abc".toList, "--p:var(--p)".toList⟩ : Declaration),
        ⟨"a".toList, "color".toList, "#abc".toList⟩],
        Color.literals d.value ⊆ ["#abc".toList] := by decide +kernel
    obtain ⟨r, palette, h, m, colors, uncolored⟩ := @exists_ofText_oneColor strayColor
      (parsed ▸ literals) (by rw [parsed]; rfl) (by rw [parsed]; decide +kernel)
    have colored : r.colored =
        "a\x7bvar(--color-fg):--p:var(--p);color:var(--color-fg)\x7d".toList := by
      rw [m.colored_of_single colors, uncolored]
      decide +kernel
    have after : parse r.colored = [⟨"a".toList, "--p".toList, "var(--p)".toList⟩,
        ⟨"a".toList, "color".toList, "var(--color-fg)".toList⟩] := by
      rw [colored]
      cbv
    refine ⟨r, _, h, m.substitute_eq, ?_, ?_⟩
    · rw [m.converted]
      exact not_selfReference_of_parse parsed (by decide +kernel)
    · refine (exists_congr_customs rfl m.customs_passes fun v => reference _ <:+: v).2 ?_
      rw [after]
      exact ⟨_, List.mem_cons_self, rfl, List.infix_refl _⟩
  · have parsed : parse namesakeSize =
      [⟨"a".toList, "font-size".toList, "var(--fs-1)".toList⟩] := by cbv
    have none : (Candidates.collect (parse namesakeSize)).colors = .empty := by
      rw [parsed]
      rfl
    obtain ⟨r, h⟩ := exists_of_colorless none
    obtain ⟨palette, m⟩ := exists_made h
    have sizes : (r.tokens.table .fontSizes).entries =
        [("var(--fs-1)".toList, "--fs-1".toList)] := by
      rw [m.table, parsed]
      decide +kernel
    refine ⟨r, h, ?_, (m.selfReference_line_iff _).2 ⟨.fontSizes, by decide,
      ("var(--fs-1)".toList, "--fs-1".toList), ?_, rfl, List.infix_refl _⟩⟩
    · rw [m.converted]
      exact not_selfReference_of_parse parsed (by decide +kernel)
    · rw [sizes]
      exact List.mem_singleton_self _

end Tokenization

end DesignTokens
