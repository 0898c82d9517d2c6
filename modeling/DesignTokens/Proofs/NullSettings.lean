import DesignTokens.Proofs.GivenSettings
import DesignTokens.Proofs.LayeredSettings

/-!
Options that are null. To leave out an option that is null changes nothing, but where the setting
goes by two names: the first name hides the other one, even as null, and without it the other one
counts. Main statement: `overlay_withoutNulls_iff`.
-/
namespace DesignTokens

namespace Json

def isNull : Json → Bool
  | null => true
  | _ => false

theorem isNull_iff {value : Json} : value.isNull = true ↔ value = null := by
  cases value <;> simp [isNull]

end Json

namespace Options

variable (removed : CodeText → Bool) (o : Options)

/-- The options without those of some names, where these are null. -/
def withoutNulls : Options where
  entries := o.entries.filter fun e => !(removed e.1 && e.2.isNull)
  nodup_keys := o.nodup_keys.sublist (List.filter_sublist.map _)

/-- The value that counts as soon as a null option is left out: it goes by the other name. -/
def hidden? (name other : String) : Option Json :=
  if removed (.ofText name.toList) && (o.entries.lookup (.ofText name.toList)).any Json.isNull then
    o.given? other
  else none

theorem lookup_withoutNulls (name : CodeText) : (o.withoutNulls removed).entries.lookup name =
    (o.entries.lookup name).filter fun value => !(removed name && value.isNull) :=
  lookup_filter_of_nodup (fun name (value : Json) => !(removed name && value.isNull)) name
    o.nodup_keys

theorem given?_withoutNulls (name : String) :
    (o.withoutNulls removed).given? name = o.given? name := by
  change Json.unlessNull ((o.withoutNulls removed).entries.lookup _) =
    Json.unlessNull (o.entries.lookup _)
  rw [lookup_withoutNulls]
  cases o.entries.lookup (.ofText name.toList) with
  | none => rfl
  | some value =>
      cases null : value.isNull with
      | false => rw [Option.filter_some_pos (by simp [null])]
      | true =>
          rw [Json.isNull_iff.1 null]
          cases removed (.ofText name.toList) <;> rfl

/-- A value is only hidden where none counts. -/
theorem givenAs?_of_hidden {name other : String} {value : Json}
    (h : o.hidden? removed name other = some value) :
    Json.givenAs? o.entries name other = none := by
  rw [hidden?] at h
  split at h
  · rename_i null
    rw [Bool.and_eq_true, Option.any_eq_true] at null
    obtain ⟨-, first, found, null⟩ := null
    rw [Json.givenAs?, Json.given?, found, Json.isNull_iff.1 null]
    rfl
  · cases h

theorem givenAs?_withoutNulls (name other : String) :
    Json.givenAs? (o.withoutNulls removed).entries name other =
      (o.hidden? removed name other).or (Json.givenAs? o.entries name other) := by
  have same (name : String) : Json.given? (o.withoutNulls removed).entries name =
      Json.given? o.entries name := o.given?_withoutNulls removed name
  rw [Json.givenAs?, Json.givenAs?, hidden?, lookup_withoutNulls, same, same]
  cases found : o.entries.lookup (.ofText name.toList) with
  | none =>
      rw [Option.any_none, Bool.and_false]
      rfl
  | some value =>
      cases null : value.isNull with
      | false => simp [null]
      | true =>
          have missing : Json.given? o.entries name = none := by
            rw [Json.given?, found, Json.isNull_iff.1 null]
          cases h : removed (.ofText name.toList) <;> simp [null, missing, Options.given?]

end Options

namespace Setting

variable {removed : CodeText → Bool} {o : Options} {s : Setting} {value : Json}

/-- The value of a setting that is hidden by a null option. -/
def hidden? (removed : CodeText → Bool) (o : Options) : Setting → Option Json
  | algorithm => o.hidden? removed "algorithm" "dark_algorithm"
  | conversions => o.hidden? removed "convert" "conversions"
  | _ => none

theorem value?_withoutNulls (removed : CodeText → Bool) (o : Options) (s : Setting) :
    s.value? (o.withoutNulls removed).entries =
      (s.hidden? removed o).or (s.value? o.entries) := by
  cases s with
  | base name => exact o.given?_withoutNulls removed name
  | features => exact o.given?_withoutNulls removed "features"
  | prefixes => exact o.given?_withoutNulls removed "prefixes"
  | algorithm => exact o.givenAs?_withoutNulls removed "algorithm" "dark_algorithm"
  | conversions => exact o.givenAs?_withoutNulls removed "convert" "conversions"

theorem value?_of_hidden (h : s.hidden? removed o = some value) : s.value? o.entries = none := by
  cases s with
  | base name | features | prefixes => cases h
  | algorithm | conversions => exact o.givenAs?_of_hidden removed h

theorem checkIn_withoutNulls (h : s.hidden? removed o = none) :
    s.checkIn (o.withoutNulls removed).entries = s.checkIn o.entries := by
  rw [checkIn, checkIn, value?_withoutNulls, h, Option.none_or]

/-- What can be read of options can be read of them without those that are null. -/
theorem checkIn_of_withoutNulls (h : s.checkIn (o.withoutNulls removed).entries = .ok ()) :
    s.checkIn o.entries = .ok () := by
  cases hidden : s.hidden? removed o with
  | none => rwa [checkIn_withoutNulls hidden] at h
  | some value =>
      rw [checkIn, value?_of_hidden hidden]
      rfl

/-- Is the setting given a value that it cannot be read from? -/
def isRefused (members : List (CodeText × Json)) (s : Setting) : Bool :=
  (s.value? members).any fun value => !s.takes value || s.misspells value

/-- The first setting, in the order of reading, that cannot be read. -/
def firstRefused? (members : List (CodeText × Json)) : Option Setting :=
  all.find? (isRefused members)

variable {members : List (CodeText × Json)} {e : OptionError}

theorem isRefused_eq_false_iff : s.isRefused members = false ↔ s.checkIn members = .ok () := by
  rw [checkIn_eq_ok_iff, isRefused, IsFine]
  cases s.value? members with
  | none => simp
  | some value => simp

theorem isRefused_eq_true_iff : s.isRefused members = true ↔ s.checkIn members ≠ .ok () := by
  rw [Ne, ← isRefused_eq_false_iff, Bool.not_eq_false]

theorem firstRefused?_eq_some_iff : firstRefused? members = some s ↔
    ∃ front back, all = front ++ s :: back ∧ (∀ earlier ∈ front, earlier.checkIn members = .ok ()) ∧
      s.checkIn members ≠ .ok () := by
  rw [firstRefused?, List.find?_eq_some_iff_append, isRefused_eq_true_iff]
  simp only [Bool.not_eq_true', isRefused_eq_false_iff]
  constructor
  · rintro ⟨here, front, back, order, before⟩
    exact ⟨front, back, order, before, here⟩
  · rintro ⟨front, back, order, before, here⟩
    exact ⟨here, front, back, order, before⟩

theorem exists_firstRefused?_iff {c : Config} : c.overlayMembers members = .error e ↔
    ∃ s, firstRefused? members = some s ∧ s.checkIn members = .error e := by
  rw [overlayMembers_eq_error_iff]
  simp only [firstRefused?_eq_some_iff]
  constructor
  · rintro ⟨front, s, back, order, before, here⟩
    exact ⟨s, ⟨front, back, order, before, here ▸ nofun⟩, here⟩
  · rintro ⟨s, ⟨front, back, order, before, -⟩, here⟩
    exact ⟨front, s, back, order, before, here⟩

/-- The settings that are read after this one. -/
def later (s : Setting) : List Setting := (all.dropWhile (· != s)).tail

theorem eq_or_mem_later {t : Setting} (first : firstRefused? members = some s) (known : t ∈ all)
    (refused : t.checkIn members ≠ .ok ()) : t = s ∨ t ∈ s.later := by
  obtain ⟨front, back, order, before, here⟩ := firstRefused?_eq_some_iff.1 first
  have fresh : ∀ x ∈ front, (x != s) = true := by
    intro x hx
    rw [bne_iff_ne]
    rintro rfl
    exact here (before x hx)
  have rest : s.later = back := by
    rw [later, order, List.dropWhile_append_of_pos fresh,
      List.dropWhile_cons_of_neg (by rw [bne_self_eq_false]; exact Bool.false_ne_true)]
    rfl
  rw [order, List.mem_append, List.mem_cons] at known
  rw [rest]
  exact known.resolve_left fun hx => refused (before t hx)

/-- What the settings after the algorithm are refused for is a value of a wrong kind. -/
theorem isUnreadable_of_later (h : s ∈ algorithm.later) (failed : s.checkIn members = .error e) :
    e.isUnreadable = false := by
  obtain ⟨value, given, -⟩ := exists_value_of_checkIn_eq_error failed
  have judged := judges_checkIn given
  have spelled : s.misspells value = false := by
    have only : algorithm.later = [features, prefixes, conversions] := by decide
    rw [only] at h
    simp only [List.mem_cons, List.not_mem_nil, or_false] at h
    rcases h with rfl | rfl | rfl <;> rfl
  rw [failed, spelled] at judged
  generalize s.takes value = taken at judged
  cases judged with
  | refused kind => exact kind

/-- What a setting is refused for does not go by which other options are null. -/
theorem exists_error_of_firstRefused? (removed : CodeText → Bool)
    (h : firstRefused? o.entries = some s) : ∃ e, s.checkIn o.entries = .error e ∧
      s.checkIn (o.withoutNulls removed).entries = .error e := by
  obtain ⟨-, -, -, -, refused⟩ := firstRefused?_eq_some_iff.1 h
  have plain : s.hidden? removed o = none := by
    cases hidden : s.hidden? removed o with
    | none => rfl
    | some value =>
        rw [checkIn, value?_of_hidden hidden] at refused
        exact absurd rfl refused
  rw [checkIn_withoutNulls plain]
  cases here : s.checkIn o.entries with
  | ok passed => exact absurd here refused
  | error e => exact ⟨e, rfl, rfl⟩

/-- Of options with and without those that are null, the same error is that of the same setting. -/
theorem eq_of_checkIn_eq_error {s' : Setting} (first : firstRefused? o.entries = some s)
    (failed : s.checkIn o.entries = .error e)
    (first' : firstRefused? (o.withoutNulls removed).entries = some s')
    (failed' : s'.checkIn (o.withoutNulls removed).entries = .error e) : s = s' := by
  cases hidden : s'.hidden? removed o with
  | none =>
      obtain ⟨front, back, order, before, here⟩ := firstRefused?_eq_some_iff.1 first'
      rw [checkIn_withoutNulls hidden] at here
      have both : firstRefused? o.entries = some s' := firstRefused?_eq_some_iff.2
        ⟨front, back, order, fun x hx => checkIn_of_withoutNulls (before x hx), here⟩
      exact Option.some.inj (first.symm.trans both)
  | some value =>
      have still : s.checkIn (o.withoutNulls removed).entries ≠ .ok () := by
        intro fine
        rw [checkIn_of_withoutNulls fine] at failed
        cases failed
      refine (eq_or_mem_later first' (List.mem_of_find?_eq_some first) still).resolve_right ?_
      intro after
      -- Of the two that can be hidden only the algorithm has settings after it. These are refused
      -- for the kind of their value, which the algorithm never is.
      cases s' with
      | base name | features | prefixes => cases hidden
      | conversions =>
          have last : conversions.later = [] := by decide
          rw [last] at after
          cases after
      | algorithm =>
          obtain ⟨value, -, told⟩ := exists_value_of_checkIn_eq_error failed'
          cases (isUnreadable_of_later after failed).symm.trans told

end Setting

namespace Reads

variable {α : Type} {read : Json → Except OptionError α} {hidden given : Option Json} {old new : α}

/-- A value that counts where there was none may count if it changes nothing. -/
theorem elim_or (h : Reads read hidden old old)
    (only : ∀ value, hidden = some value → given = none) :
    (hidden.or given).elim (.ok old) read = given.elim (.ok old) read := by
  cases hidden with
  | none => rfl
  | some value =>
      rw [only value rfl]
      exact h

theorem of_or (before : Reads read given old new) (after : Reads read (hidden.or given) old new)
    (only : ∀ value, hidden = some value → given = none) : Reads read hidden old old := by
  cases hidden with
  | none => rfl
  | some value =>
      rw [only value rfl] at before
      cases before.eq_of_none
      exact after

end Reads

namespace Config

variable (removed : CodeText → Bool) (o : Options) (c : Config)

/-- What null options hide reads as what the configuration has in its place. -/
structure AgreesWithHidden : Prop where
  algorithm : Reads DarkMethod.parse (Setting.algorithm.hidden? removed o) c.algorithm c.algorithm
  conversions :
    Reads Conversion.parse (Setting.conversions.hidden? removed o) c.conversions c.conversions

variable {removed o c}

theorem AgreesWithHidden.overlay_withoutNulls (h : c.AgreesWithHidden removed o) :
    c.overlay (o.withoutNulls removed).toJson = c.overlay o.toJson := by
  have given (name : String) : Json.given? (o.withoutNulls removed).entries name =
      Json.given? o.entries name := o.given?_withoutNulls removed name
  have givenAs {α : Type} {read : Json → Except OptionError α} {name other : String} {old : α}
      (h : Reads read (o.hidden? removed name other) old old) :
      (Json.givenAs? (o.withoutNulls removed).entries name other).elim (.ok old) read =
        (Json.givenAs? o.entries name other).elim (.ok old) read := by
    rw [Options.givenAs?_withoutNulls]
    exact h.elim_or fun _ => o.givenAs?_of_hidden removed
  change c.overlayMembers _ = c.overlayMembers _
  simp only [overlayMembers, LengthBases.overlay, given, givenAs h.algorithm, givenAs h.conversions]

/-- Where no setting goes by its other name, options that are null can be left out. -/
theorem overlay_withoutNulls_of_isCanonical (plain : o.IsCanonical) :
    c.overlay (o.withoutNulls removed).toJson = c.overlay o.toJson := by
  have unhidden (name : String) {other : String} (hs : other ∈ ["dark_algorithm", "conversions"]) :
      o.hidden? removed name other = none := by
    have missing : o.given? other = none := by rw [Options.given?, Json.given?, plain other hs]
    rw [Options.hidden?, missing, ite_self]
  have agrees : c.AgreesWithHidden removed o := by
    constructor
    · rw [Setting.hidden?, unhidden _ (by decide)]
      rfl
    · rw [Setting.hidden?, unhidden _ (by decide)]
      rfl
  exact agrees.overlay_withoutNulls

theorem Overlays.agreesWithHidden {c' : Config} (h : Overlays o.entries c c')
    (h' : Overlays (o.withoutNulls removed).entries c c') : c.AgreesWithHidden removed o := by
  have algorithm := h'.algorithm
  have conversions := h'.conversions
  rw [Options.givenAs?_withoutNulls] at algorithm conversions
  exact ⟨h.algorithm.of_or algorithm fun _ => o.givenAs?_of_hidden removed,
    h.conversions.of_or conversions fun _ => o.givenAs?_of_hidden removed⟩

/-- Options that are null can be left out, for all that comes of it, if and only if what they hide
reads as what the configuration has anyway, or all fails by the same setting before and after. -/
theorem overlay_withoutNulls_iff (removed : CodeText → Bool) (o : Options) (c : Config) :
    c.overlay (o.withoutNulls removed).toJson = c.overlay o.toJson ↔
      c.AgreesWithHidden removed o ∨ ∃ s, Setting.firstRefused? o.entries = some s ∧
        Setting.firstRefused? (o.withoutNulls removed).entries = some s := by
  constructor
  · intro same
    cases made : c.overlay o.toJson with
    | ok c' =>
        rw [made, overlay_eq_ok_iff] at same
        exact .inl ((overlay_eq_ok_iff.1 made).agreesWithHidden same)
    | error e =>
        rw [made] at same
        obtain ⟨s, first, failed⟩ := Setting.exists_firstRefused?_iff.1 made
        obtain ⟨s', first', failed'⟩ := Setting.exists_firstRefused?_iff.1 same
        cases Setting.eq_of_checkIn_eq_error first failed first' failed'
        exact .inr ⟨s, first, first'⟩
  · rintro (agrees | ⟨s, first, first'⟩)
    · exact agrees.overlay_withoutNulls
    · obtain ⟨e, failed, failed'⟩ := Setting.exists_error_of_firstRefused? removed first
      have before : c.overlay o.toJson = .error e :=
        Setting.exists_firstRefused?_iff.2 ⟨s, first, failed⟩
      exact (Setting.exists_firstRefused?_iff.2 ⟨s, first', failed'⟩).trans before.symm

/-- A null under the first name, and a method under the other one. -/
def hiddenMethod : Options := .ofList [(.ofText "algorithm".toList, .null),
  (.ofText "dark_algorithm".toList, .text "invert".toList)]

/-- The null algorithm hides the other one. -/
theorem not_overlay_withoutNulls_hiddenMethod :
    default.overlay (hiddenMethod.withoutNulls fun _ => true).toJson ≠
      default.overlay hiddenMethod.toJson := by
  intro same
  have methods : (default.overlay (hiddenMethod.withoutNulls fun _ => true).toJson).map algorithm =
      (default.overlay hiddenMethod.toJson).map algorithm := congrArg _ same
  revert methods
  decide

end Config

end DesignTokens
