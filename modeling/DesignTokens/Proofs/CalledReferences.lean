import DesignTokens.Proofs.BareSheets
import DesignTokens.Proofs.IndependentFeatures
import DesignTokens.Proofs.JoinedTexts
import DesignTokens.Proofs.KeptImportance

/-!
References that are called: a reference directly in front of an opening parenthesis. A sheet in
which no closing parenthesis is directly followed by an opening one has such a place after it is
rewritten if and only if a literal of a color, a length, a duration or an easing is directly followed
by an opening parenthesis where its turn comes, or the pass for typography makes one. Main
statement: `called_references`.
-/
namespace DesignTokens

open Text

/-! ### Families of properties -/

namespace Feature

/-- The first characters of the properties that a feature owns. -/
def initials : Feature → List Char
  | .typography => ['f', 'l']
  | .spacing => ['m', 'p', 'g', 'c', 'r']
  | .borders => ['b', 'o']
  | .motion => ['t', 'a']
  | .radius | .shadows | .colors => []

/-- The features whose properties are families apart from each other. -/
def families : List Feature := [.typography, .spacing, .borders, .motion]

variable {f g : Feature} {property : Text}

theorem head?_any_of_isPrefixOf {name : Text} {q : Char → Bool} (hq : name.head?.any q)
    (h : name.isPrefixOf property) : property.head?.any q := by
  obtain ⟨rest, rfl⟩ := List.isPrefixOf_iff_prefix.1 h
  cases name with
  | nil => cases hq
  | cons c name => exact hq

theorem initial_of_owns (hf : f ∈ families) (h : f.owns property) :
    property.head?.any f.initials.contains := by
  simp only [families, List.mem_cons, List.not_mem_nil, or_false] at hf
  rcases hf with rfl | rfl | rfl | rfl
  · have initials : ("font".toList :: "font-family".toList ::
        Candidates.wholeValues.map Prod.fst).all fun p => p.head?.any ['f', 'l'].contains := by
      decide
    refine List.all_eq_true.1 initials property ?_
    simp only [owns, Bool.or_eq_true, decide_eq_true_eq] at h
    rcases h with (font | family) | whole
    · simp [font]
    · simp [family]
    · obtain ⟨c, hc⟩ := Option.isSome_iff_exists.1 whole
      have entry := List.mem_map_of_mem (f := Prod.fst) (mem_of_lookup_eq_some hc)
      exact List.mem_cons_of_mem _ (List.mem_cons_of_mem _ entry)
  · have initials : Property.spacing.all fun name =>
        name.head?.any ['m', 'p', 'g', 'c', 'r'].contains := by decide
    obtain ⟨name, hname, start⟩ := List.any_eq_true.1 h
    exact head?_any_of_isPrefixOf (List.all_eq_true.1 initials name hname)
      (Bool.and_eq_true_iff.1 start).1
  · rcases Bool.or_eq_true_iff.1 h with border | outline
    · exact head?_any_of_isPrefixOf (by decide) border
    · exact head?_any_of_isPrefixOf (by decide) outline
  · have initials : Property.motion.all fun p => p.head?.any ['t', 'a'].contains := by decide
    exact List.all_eq_true.1 initials property (List.contains_iff_mem.1 h)

theorem owns_eq_false (hf : f ∈ families) (hg : g ∈ families) (hne : f ≠ g)
    (h : f.owns property) : g.owns property = false := by
  by_contra other
  obtain ⟨c, first, hc⟩ := (Option.any_eq_true _ _).1 (initial_of_owns hf h)
  obtain ⟨d, second, hd⟩ := (Option.any_eq_true _ _).1
    (initial_of_owns hg (Bool.not_eq_false _ ▸ other))
  obtain rfl : c = d := Option.some.inj (first.symm.trans second)
  have apart : families.all fun f => families.all fun g =>
      f == g || f.initials.all fun c => !g.initials.contains c := by decide
  have two := List.all_eq_true.1 (List.all_eq_true.1 apart f hf) g hg
  rw [Bool.or_eq_true, beq_iff_eq, or_iff_right hne, List.all_eq_true] at two
  have none := two c (List.contains_iff_mem.1 hc)
  rw [hd] at none
  cases none

end Feature

/-! ### Passes -/

theorem Text.uncut_joined : Uncut [')', '('] :=
  ⟨⟨by simp, fun c hc => by cases hc; rfl, fun c hc => by cases hc; rfl⟩, by decide, by decide,
    by decide, by decide⟩

theorem Text.uncut_called {name : Text} (hv : TokenName.Valid name) :
    Uncut (reference name ++ ['(']) := by
  have plain {c : Char} (hc : TokenName.isPart c = false) : c ∉ name := fun mem => by
    rw [hv.parts c mem] at hc
    cases hc
  have outside {c : Char} (hc : TokenName.isPart c = false ∧ c ∉ opening ++ [')', '(']) :
      c ∉ reference name ++ ['('] := by
    have name := plain hc.1
    have frame := hc.2
    simp only [opening, List.mem_append, List.mem_cons, List.not_mem_nil, or_false, not_or] at frame
    simp [reference, name, frame]
  refine ⟨⟨by simp, fun c hc => ?_, fun c hc => ?_⟩, outside (by decide), outside (by decide),
    outside (by decide), outside (by decide)⟩
  · obtain rfl : 'v' = c := Option.some.inj hc
    rfl
  · rw [List.getLast?_concat] at hc
    obtain rfl := Option.some.inj hc
    rfl

namespace Pass

theorem infix_apply_iff {p : Text} (hp : IsSolid p) (f : Text → Text → Text) (property v : Text) :
    p <:+: (Pass.values f).apply property v ↔ p <:+: f property v :=
  (Block.infix_valueOf_iff hp _).trans
    (infix_blank_append (a := [' ']) (List.forall_mem_singleton.2 rfl) hp.ne_nil hp.head)

theorem joined_apply_iff (f : Text → Text → Text) (property v : Text) :
    Joined ((Pass.values f).apply property v) ↔ Joined (f property v) :=
  infix_apply_iff uncut_joined.toIsSolid f property v

theorem joined_runAll_iff {names : List Text} (hr : ∀ name ∈ names, Value.Fits (reference name))
    {passes : List Pass} (h : ∀ p ∈ passes, p.Inserts names) (t : Text) :
    Joined (runAll passes t) ↔ Joined (Sheet.bare t) ∨
      ∃ d ∈ Declaration.raw t, Joined (applyAll passes d.property d.value) :=
  infix_runAll_iff hr uncut_joined h t

/-- A pass that may be run or not is as if it was run where it would leave each value. -/
theorem applyAll_passesIf_of_fixed {condition : Bool} {p : Pass} {property v : Text}
    (h : condition = false → p.apply property v = v) :
    applyAll (TokenTables.passesIf condition p) property v = p.apply property v := by
  cases condition with
  | true => rfl
  | false => exact (h rfl).symm

end Pass

namespace TokenMap

theorem substituteLone_of_isEmpty {m : TokenMap} (h : m.isEmpty) (spelling : Spelling) (v : Text) :
    m.substituteLone spelling v = v := by
  rw [substituteLone, byLength, List.isEmpty_iff.1 h, List.mergeSort_nil]
  rfl

theorem not_joined_replaceWhole {m : TokenMap} (hm : ∀ e ∈ m.entries, '(' ∉ e.2)
    {normal : Text → Text} {v : Text} (hv : ¬ Joined v) : ¬ Joined (m.replaceWhole normal v) := by
  rw [replaceWhole]
  cases found : m.reference? (normal v) with
  | none => exact hv
  | some new =>
      obtain ⟨name, token, rfl⟩ := Option.map_eq_some_iff.1 found
      have entry := OrderedMap.mem_of_get?_eq_some (Option.filter_eq_some_iff.1 token).1
      exact not_joined_reference (hm _ entry)

end TokenMap

theorem Candidates.Finds.parts {d : Declaration} {c : Category} {literal : Text}
    (h : Finds d c literal) (hc : c ∈ [Category.spacing, .borderWidths, .durations, .easings]) :
    Parts (loneToken .exact literal) literal := by
  cases h with
  | spacing hp hl => exact .of_length hl
  | borderWidth hp hl => exact .of_length (List.mem_of_head? hl)
  | duration hp hl => exact .of_duration hl
  | easing hp hl => exact .of_easing hl
  | radius | shadow | family | shorthandFamily | shorthandSize | shorthandLineHeight
  | shorthandWeight => simp at hc
  | whole hp =>
      simp only [wholeValues, List.mem_cons, Prod.mk.injEq, List.not_mem_nil, or_false] at hp hc
      grind

namespace Tokenization

variable {t : Text} {r : Tokenization}

/-- The pass for a feature puts a reference in front of an opening parenthesis in a value; for
typography it makes joined parentheses in any way. -/
def Calls (r : Tokenization) (d : Declaration) : Feature → Prop
  | .typography => Joined (r.typography d.property d.value)
  | .spacing => (r.tokens.table .spacing).CallsLone d.value
  | .borders => (r.tokens.table .borderWidths).CallsLone d.value
  | .motion => (r.tokens.table .durations).CallsLone d.value ∨
    (r.tokens.table .easings).CallsLone ((r.tokens.table .durations).substituteLone .exact d.value)
  | .radius | .shadows | .colors => False

theorem mem_families_of_calls {d : Declaration} {f : Feature} (h : r.Calls d f) :
    f ∈ Feature.families := by
  cases f with
  | typography | spacing | borders | motion => decide
  | radius | shadows | colors => cases h

/-- The pass over the values of the properties that a feature owns. -/
def pass (r : Tokenization) : Feature → Pass
  | .typography => .values r.typography
  | .spacing => r.tokens.spacingPass
  | .borders => r.tokens.borderPass
  | .motion => r.tokens.motionPass
  | .radius | .shadows | .colors => .values fun _ v => v

theorem leaves_pass {f : Feature} {property : Text} (h : f.owns property = false) :
    (r.pass f).Leaves property := by
  cases f with
  | typography => exact TokenTables.leaves_typography h
  | spacing | borders | motion => exact TokenTables.leaves_onFamily h
  | radius | shadows | colors => exact fun _ => rfl

/-- Of the passes for families of properties one matters for a property. -/
theorem applyAll_families {f : Feature} (hf : f ∈ Feature.families) {property v : Text}
    (h : f.owns property) (hv : Value.Settled v) :
    Pass.applyAll (Feature.families.map r.pass) property v = (r.pass f).apply property v := by
  have others (g : Feature) (hg : g ∈ Feature.families) (hne : f ≠ g) :
      (r.pass g).Leaves property := leaves_pass (Feature.owns_eq_false hf hg hne h)
  obtain ⟨before, after, split⟩ := List.append_of_mem hf
  have distinct : Feature.families.Nodup := by decide
  rw [split] at distinct others
  have first : f ∉ before := fun mem =>
    (List.nodup_append.1 distinct).2.2 f mem f List.mem_cons_self rfl
  have second : f ∉ after := (List.nodup_cons.1 (List.nodup_append.1 distinct).2.1).1
  rw [split, List.map_append, List.map_cons]
  have run : Pass.applyAll (before.map r.pass ++
      (TokenTables.passesIf true (r.pass f) ++ after.map r.pass)) property v = _ :=
    Pass.applyAll_passesIf_append hv (List.forall_mem_map.2 fun g hg =>
      others g (by simp [hg]) (ne_of_mem_of_not_mem hg first).symm) rfl
  refine run.trans (Pass.applyAll_of_leaves (List.forall_mem_map.2 fun g hg => ?_)
    (Pass.settled_apply hv))
  exact others g (by simp [hg]) (ne_of_mem_of_not_mem hg second).symm

namespace Made

variable {palette : Palette} (m : Made t r palette)
include m

theorem flat (c : Category) : ∀ e ∈ (r.tokens.table c).entries, '(' ∉ e.2 := fun e he mem =>
  absurd ((m.valid c e he).parts _ mem) (by decide)

theorem joined_lone_iff {c : Category}
    (hc : c ∈ [Category.spacing, .borderWidths, .durations, .easings]) (v : Text) :
    Joined ((r.tokens.table c).substituteLone .exact v) ↔
      Joined v ∨ (r.tokens.table c).CallsLone v := by
  refine TokenMap.joined_substituteLone_iff fun e he => ⟨?_, m.flat c e he⟩
  obtain ⟨d, hd, found⟩ := m.finds he
  exact found.parts hc

/-- A pass without tokens does not matter. -/
theorem applyAll_later {property v : Text} (hv : Value.Settled v) :
    Pass.applyAll (.values r.typography :: r.tokens.latePasses r.config.features) property v =
      Pass.applyAll (Feature.families.map r.pass) property v := by
  have run {f : Feature} {categories : List Category} {p : Pass} {u : Text}
      (h : (∀ c ∈ categories, (r.tokens.table c).isEmpty) → p.apply property u = u) :
      Pass.applyAll (TokenTables.passesIf (r.tokens.enables r.config.features f categories) p)
        property u = p.apply property u := by
    refine Pass.applyAll_passesIf_of_fixed fun off => h fun c hc => ?_
    have enabled : r.config.features.contains f := by
      rw [m.config]
      cases f <;> rfl
    rw [TokenTables.enables, enabled, Bool.true_and, List.any_eq_false] at off
    simpa using off c hc
  have left {family : Text → Bool} {g : Text → Text} {u : Text} (hu : Value.Settled u)
      (h : g u = u) : (Pass.values (TokenTables.onFamily family g)).apply property u = u := by
    have same : TokenTables.onFamily family g property u = u := by
      rw [TokenTables.onFamily, h, ite_self]
    rwa [Pass.apply, same]
  have lone {c : Category} (u : Text) (h : (r.tokens.table c).isEmpty) :=
    TokenMap.substituteLone_of_isEmpty h .exact u
  have first : Value.Settled ((Pass.values r.typography).apply property v) := Pass.settled_apply hv
  change Pass.applyAll _ property ((Pass.values r.typography).apply property v) = _
  rw [TokenTables.latePasses, Pass.applyAll_append, Pass.applyAll_append, run, run, run]
  · rfl
  · exact fun none => left first (lone _ (none _ (by simp)))
  · exact fun none => left (Pass.settled_applyAll first) (lone _ (none _ (by simp)))
  · intro none
    refine left (Pass.settled_applyAll (Pass.settled_applyAll first)) ?_
    rw [lone _ (none .durations (by simp)), lone _ (none .easings (by simp))]

theorem joined_pass_iff {f : Feature} (hf : f ∈ Feature.families) {d : Declaration}
    (h : f.owns d.property) (plain : ¬ Joined d.value) :
    Joined ((r.pass f).apply d.property d.value) ↔ r.Calls d f := by
  have one {family : Text → Bool} (g : Text → Text) (owns : family d.property) :
      Joined ((Pass.values (TokenTables.onFamily family g)).apply d.property d.value) ↔
        Joined (g d.value) := by
    rw [Pass.joined_apply_iff, TokenTables.onFamily, if_pos owns]
  simp only [Feature.families, List.mem_cons, List.not_mem_nil, or_false] at hf
  rcases hf with rfl | rfl | rfl | rfl
  · exact Pass.joined_apply_iff r.typography d.property d.value
  · exact (one _ h).trans ((m.joined_lone_iff (by simp) _).trans (or_iff_right plain))
  · exact (one _ h).trans ((m.joined_lone_iff (by simp) _).trans (or_iff_right plain))
  · refine (one _ h).trans ((m.joined_lone_iff (by simp) _).trans ?_)
    rw [m.joined_lone_iff (by simp), or_iff_right plain]
    rfl

/-- Joined parentheses in a value after the passes for families of properties. -/
theorem joined_later_iff {d : Declaration} (hv : Value.Settled d.value) (plain : ¬ Joined d.value) :
    Joined (Pass.applyAll (.values r.typography :: r.tokens.latePasses r.config.features)
      d.property d.value) ↔ ∃ f : Feature, f.owns d.property ∧ r.Calls d f := by
  rw [m.applyAll_later hv]
  by_cases owned : ∃ f ∈ Feature.families, f.owns d.property
  · obtain ⟨f, hf, owns⟩ := owned
    rw [applyAll_families hf owns hv, m.joined_pass_iff hf owns plain]
    refine ⟨fun calls => ⟨f, owns, calls⟩, fun ⟨g, owns', calls⟩ => ?_⟩
    by_cases same : f = g
    · exact same ▸ calls
    · rw [Feature.owns_eq_false hf (mem_families_of_calls calls) same owns] at owns'
      cases owns'
  · have leaves : ∀ p ∈ Feature.families.map r.pass, p.Leaves d.property :=
      List.forall_mem_map.2 fun f hf => leaves_pass (Bool.eq_false_iff.2 fun h => owned ⟨f, hf, h⟩)
    rw [Pass.applyAll_of_leaves leaves hv]
    refine iff_of_false plain fun ⟨f, owns, calls⟩ => ?_
    exact owned ⟨f, mem_families_of_calls calls, owns⟩

/-- The passes that compare whole values join no parentheses. -/
theorem not_joined_uncolored (plain : ¬ Joined t) : ¬ Joined r.uncolored := by
  have whole (c : Category) (normal : Text → Text) (family : Text → Bool) (property v : Text)
      (hv : ¬ Joined v) : ¬ Joined ((Pass.values (TokenTables.onFamily family
        ((r.tokens.table c).replaceWhole normal))).apply property v) := by
    rw [Pass.joined_apply_iff, TokenTables.onFamily]
    split
    · exact TokenMap.not_joined_replaceWhole (m.flat c) hv
    · exact hv
  have all : ∀ p ∈ r.tokens.wholePasses r.config.features,
      ∀ property v, ¬ Joined v → ¬ Joined (p.apply property v) :=
    TokenTables.forall_mem_wholePasses (whole .shadows _ _) (whole .radii _ _) _
  rw [← m.converted] at plain
  rw [uncolored, Pass.joined_runAll_iff m.fits_rootNames m.inserts_wholePasses]
  rintro (bare | ⟨d, hd, joined⟩)
  · exact plain ((Sheet.infix_iff_bare uncut_joined _).2 (.inl bare))
  · have value : ¬ Joined d.value := fun inside =>
      plain ((Sheet.infix_iff_bare uncut_joined _).2 (.inr ⟨d, hd, inside⟩))
    exact absurd joined (List.foldlRecOn (motive := fun v => ¬ Joined v) _ _ value
      fun v hv p hp => all p hp d.property v hv)

theorem joined_colored_iff (plain : ¬ Joined t) :
    Joined r.colored ↔ r.tokens.colors.CallsAll r.uncolored := by
  rw [m.colored_eq, TokenMap.joined_substituteAll_iff, or_iff_right (m.not_joined_uncolored plain)]
  intro e he
  obtain ⟨d, hd, found⟩ := m.finds_color he
  exact ⟨.of_color found, fun mem =>
    absurd ((m.replaceable_color e he).2.parts _ mem) (by decide)⟩

theorem joined_passes_iff (plain : ¬ Joined r.colored) :
    Joined (Pass.runAll r.passes r.converted) ↔
      ∃ d ∈ Declaration.raw r.colored, ∃ f : Feature, f.owns d.property ∧ r.Calls d f := by
  have values := mt (Sheet.infix_iff_bare uncut_joined r.colored).2 plain
  rw [not_or] at values
  rw [passes, Pass.runAll_append,
    Pass.joined_runAll_iff m.fits_rootNames m.inserts_laterPasses]
  refine (or_iff_right values.1).trans (exists_congr fun d => and_congr_right fun hd => ?_)
  exact m.joined_later_iff (Declaration.settled_of_mem_raw d hd) fun inside =>
    values.2 ⟨d, hd, inside⟩

end Made

/-- A sheet without joined parentheses has some after the pass for colors if and only if a color is
called. If none is, it has some in the end if and only if a value is called in the pass for its
feature, and no reference is called if there are none. -/
theorem called_references (h : ofText .default t = .ok r) (plain : ¬ Joined t) :
    ∃ out, r.tokens.substitute r.config.features r.converted = .ok out ∧
      (Joined r.colored ↔ r.tokens.colors.CallsAll r.uncolored) ∧
      (¬ Joined r.colored → (Joined out ↔ ∃ d ∈ Declaration.raw r.colored,
        ∃ f : Feature, f.owns d.property ∧ r.Calls d f)) ∧
      ∀ name, reference name ++ ['('] <:+: out → Joined out := by
  obtain ⟨palette, m⟩ := exists_made h
  refine ⟨_, m.substitute_eq, m.joined_colored_iff plain, m.joined_passes_iff,
    fun name called => ?_⟩
  have last : [')', '('] <:+: reference name ++ ['('] :=
    ⟨"var(".toList ++ name, [], by simp [reference]⟩
  exact last.trans called

/-- A sheet with an easing and a duration. -/
def easedMotion : Text := "a\x7btransition:all 1s linear\x7d".toList

theorem called_references_easedMotion : ∃ r, ofText .default easedMotion = .ok r ∧
    ¬ Joined easedMotion ∧
    ∃ out, r.tokens.substitute r.config.features r.converted = .ok out ∧
      (Joined r.colored ↔ r.tokens.colors.CallsAll r.uncolored) ∧
      (¬ Joined r.colored → (Joined out ↔ ∃ d ∈ Declaration.raw r.colored,
        ∃ f : Feature, f.owns d.property ∧ r.Calls d f)) ∧
      ∀ name, reference name ++ ['('] <:+: out → Joined out := by
  have parsed : Declaration.parse easedMotion =
      [⟨"a".toList, "transition".toList, "all 1s linear".toList⟩] := by cbv
  obtain ⟨r, palette, h, -, -⟩ := @exists_made_of_colorless easedMotion (by
    rw [parsed]
    decide +kernel)
  have plain : ¬ Joined easedMotion := by decide +kernel
  exact ⟨r, h, plain, called_references h plain⟩

/-- A sheet with an easing function that is named like a keyword. -/
def linearCall : Text := "a\x7banimation-timing-function:linear(0, 1)\x7d".toList

/-- The name of the function is taken for an easing, and its reference is called. -/
theorem called_linearCall : ∃ r out, ofText .default linearCall = .ok r ∧ ¬ Joined linearCall ∧
    r.tokens.substitute r.config.features r.converted = .ok out ∧
    ∃ name, (r.tokens.table .easings).entries = [("linear".toList, name)] ∧
      reference name ++ ['('] <:+: out := by
  have parsed : Declaration.parse linearCall =
      [⟨"a".toList, "animation-timing-function".toList, "linear(0, 1)".toList⟩] := by cbv
  obtain ⟨r, palette, h, m, none⟩ := @exists_made_of_colorless linearCall (by
    rw [parsed]
    decide +kernel)
  have plain : ¬ Joined linearCall := by decide +kernel
  have collected (c : Category) (keys : List Text)
      (hc : ((Candidates.collect (Declaration.parse linearCall)).table c).keys = keys) :
      (r.tokens.table c).keys.Perm keys := by
    rw [m.tokens, ← hc]
    exact TokenTables.keys_table_perm (by cases c <;> rfl)
  have easings := List.perm_singleton.1 (collected .easings ["linear".toList] (by
    rw [parsed]
    decide +kernel))
  have durations : (r.tokens.table .durations).isEmpty := by
    have keys := List.perm_nil.1 (collected .durations [] (by
      rw [parsed]
      decide +kernel))
    exact List.isEmpty_iff.2 (List.map_eq_nil_iff.1 keys)
  obtain ⟨⟨literal, name⟩, entries, rfl⟩ := List.map_eq_singleton_iff.1 easings
  have sheet : r.colored = linearCall := by
    rw [m.colored_of_colorless none, m.uncolored_eq]
    rw [parsed]
    decide +kernel
  refine ⟨r, _, h, plain, m.substitute_eq, name, entries, ?_⟩
  have valid : TokenName.Valid name := m.valid .easings _ (entries ▸ List.mem_singleton_self _)
  have uncut : Uncut (reference name ++ ['(']) := uncut_called valid
  have raw : Declaration.raw linearCall =
      [⟨"a".toList, "animation-timing-function".toList, "linear(0, 1)".toList⟩] := by cbv
  have value : Value.Settled "linear(0, 1)".toList := Value.settled_cons rfl _
  have motion : Property.isMotion "animation-timing-function".toList := by decide
  rw [passes, Pass.runAll_append]
  change _ <:+: Pass.runAll _ r.colored
  rw [Pass.infix_runAll_iff m.fits_rootNames uncut m.inserts_laterPasses, sheet, raw]
  refine .inr ⟨_, List.mem_singleton_self _, ?_⟩
  have owns : Feature.motion.owns "animation-timing-function".toList := motion
  have run := applyAll_families (r := r) (by decide) owns value
  rw [m.applyAll_later value, run]
  refine (Pass.infix_apply_iff uncut.toIsSolid _ _ _).2 ?_
  rw [TokenTables.onFamily, if_pos motion, TokenMap.substituteLone_of_isEmpty durations,
    TokenMap.substituteLone, TokenMap.byLength, entries, List.mergeSort_singleton]
  exact ⟨[], "0, 1)".toList, by simp; rfl⟩

end Tokenization

end DesignTokens
