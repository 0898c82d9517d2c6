import DesignTokens.CommandLine.Session
import DesignTokens.Proofs.Results

/-!
Settings that are refused. They are read in a fixed order, and the first value that cannot be read
is reported: a value of a kind that the setting does not take, or a text that spells no value of it.
Main statement: `exists_overlayMembers_error_iff`.
-/
namespace DesignTokens

universe u v

section FirstErrors

variable {ε : Type u} {α β : Type v}

/-- Whether there is a result, and if there is none the error. -/
def outcomeOnly (x : Except ε α) : Except ε Unit := x.map fun _ => ()

theorem outcomeOnly_eq_error_iff {x : Except ε α} {e : ε} :
    outcomeOnly x = .error e ↔ x = .error e := by
  cases x with
  | error fault =>
      change Except.error fault = .error e ↔ _
      rw [Except.error.injEq, Except.error.injEq]
  | ok a =>
      change Except.ok () = .error e ↔ _
      simp

theorem outcomeOnly_eq_ok_iff {x : Except ε α} : outcomeOnly x = .ok () ↔ ∃ a, x = .ok a := by
  cases x with
  | error fault =>
      change Except.error fault = .ok () ↔ _
      simp
  | ok a => exact ⟨fun _ => ⟨a, rfl⟩, fun _ => rfl⟩

/-- A result that the errors of later steps do not depend on. -/
theorem outcomeOnly_bind {x : Except ε α} {f : α → Except ε β} {rest : Except ε Unit}
    (h : ∀ a, outcomeOnly (f a) = rest) :
    outcomeOnly (x >>= f) = outcomeOnly x >>= fun _ => rest := by
  cases x with
  | error e => rfl
  | ok a => exact h a

/-- The first of some checks that fails, and those before it. -/
theorem forM_eq_error_iff {γ : Type u} {check : γ → Except ε Unit} {items : List γ} {e : ε} :
    items.forM check = .error e ↔
      ∃ front x back, items = front ++ x :: back ∧ (∀ y ∈ front, check y = .ok ()) ∧
        check x = .error e := by
  induction items with
  | nil =>
      constructor
      · exact nofun
      · rintro ⟨front, x, back, items, -⟩
        cases front <;> cases items
  | cons first items ih =>
      change (check first >>= fun _ => items.forM check) = .error e ↔ _
      rw [bind_eq_error_iff]
      constructor
      · rintro (here | ⟨_, passed, later⟩)
        · exact ⟨[], first, items, rfl, nofun, here⟩
        · obtain ⟨front, x, back, rfl, before, here⟩ := ih.1 later
          refine ⟨first :: front, x, back, rfl, ?_, here⟩
          rw [List.forall_mem_cons]
          exact ⟨passed, before⟩
      · rintro ⟨front, x, back, same, before, here⟩
        cases front with
        | nil =>
            cases same
            exact .inl here
        | cons y front =>
            cases same
            rw [List.forall_mem_cons] at before
            exact .inr ⟨(), before.1, ih.2 ⟨front, x, back, rfl, before.2, here⟩⟩

theorem forM_eq_ok_iff {γ : Type u} {check : γ → Except ε Unit} {items : List γ} :
    items.forM check = .ok () ↔ ∀ x ∈ items, check x = .ok () := by
  induction items with
  | nil => exact ⟨fun _ => nofun, fun _ => rfl⟩
  | cons first items ih =>
      rw [List.forall_mem_cons, ← ih]
      change (check first >>= fun _ => items.forM check) = .ok () ↔ _
      constructor
      · intro h
        obtain ⟨_, passed, later⟩ := exists_of_bind_eq_ok h
        exact ⟨passed, later⟩
      · exact fun h => bind_eq_ok h.1 h.2

end FirstErrors

/-- The settings that can be refused, by the names that they go by. -/
inductive Setting where
  | base (name : String)
  | algorithm
  | features
  | prefixes
  | conversions
  deriving DecidableEq

namespace Setting

/-- All in the order in which they are read. -/
def all : List Setting :=
  [base "root_px", base "context_px", base "viewport_width_px", base "viewport_height_px",
    base "percent_base_px", base "ch_px", algorithm, features, prefixes, conversions]

/-- The value of a setting, if one is given. -/
def value? (members : List (CodeText × Json)) : Setting → Option Json
  | base name => Json.given? members name
  | algorithm => Json.givenAs? members "algorithm" "dark_algorithm"
  | features => Json.given? members "features"
  | prefixes => Json.given? members "prefixes"
  | conversions => Json.givenAs? members "convert" "conversions"

/-- A conversion as text, or as a list of two names. -/
def isConversion : Json → Bool
  | .string _ | .array _ | .object _ => true
  | _ => false

/-- Is the value of a kind that the setting takes? Whole numbers have to be in the range of floats;
prefixes and conversions that are zero or empty are none. -/
def takes : Setting → Json → Bool
  | base _, .int n => Number.isFinite (Decimal.mk (n < 0) n.natAbs 0).toFloat
  | base _, .float _ | base _, .bool _ | base _, .string _ => true
  | base _, _ => false
  | algorithm, _ => true
  | features, .null | features, .string _ | features, .array _ | features, .object _ => true
  | features, _ => false
  | prefixes, .object _ => true
  | prefixes, value => !value.isSet
  | conversions, .string _ | conversions, .object _ => true
  | conversions, .array items => items.all isConversion
  | conversions, value => !value.isSet

/-- Is the value a text that spells no value of the setting? -/
def misspells : Setting → Json → Bool
  | base _, .string t => (Decimal.float? t.readable).isNone
  | algorithm, value => (DarkMethod.ofName? value.display.lower.readable).isNone
  | _, _ => false

/-- What reading the value of a setting fails by. -/
def check : Setting → Json → Except OptionError Unit
  | base _, value => outcomeOnly value.toNumber
  | algorithm, value => outcomeOnly (DarkMethod.parse value)
  | features, value => outcomeOnly (Feature.parse value)
  | prefixes, value => outcomeOnly (Series.overlay value fun _ => [])
  | conversions, value => outcomeOnly (Conversion.parse value)

/-- What reading a setting fails by, which is none that is not given. -/
def checkIn (members : List (CodeText × Json)) (s : Setting) : Except OptionError Unit :=
  (s.value? members).elim (.ok ()) s.check

end Setting

/-- What reading a value comes to, if it is of a kind that is taken or not, and misspelled or not.
-/
inductive Judges {α : Type} : Except OptionError α → Bool → Bool → Prop where
  | accepted (x : α) : Judges (.ok x) true false
  | misspelled {e : OptionError} (h : e.isUnreadable = true) : Judges (.error e) true true
  | refused {e : OptionError} (h : e.isUnreadable = false) : Judges (.error e) false false

theorem Judges.ofKind {α : Type} (taken : Bool) (x : α) {e : OptionError}
    (h : e.isUnreadable = false) : Judges (if taken then .ok x else .error e) taken false := by
  cases taken with
  | true => exact .accepted x
  | false => exact .refused h

theorem Judges.map {α β : Type} {x : Except OptionError α} {taken misspelled : Bool}
    (h : Judges x taken misspelled) (f : α → β) : Judges (x.map f) taken misspelled := by
  cases h with
  | accepted x => exact .accepted (f x)
  | misspelled h => exact .misspelled h
  | refused h => exact .refused h

theorem Judges.eq_ok_iff {x : Except OptionError Unit} {taken misspelled : Bool}
    (h : Judges x taken misspelled) : x = .ok () ↔ taken = true ∧ misspelled = false := by
  cases h <;> simp

theorem Judges.isUnreadable_eq {α : Type} {e : OptionError} {taken misspelled : Bool}
    (h : Judges (.error e : Except OptionError α) taken misspelled) : e.isUnreadable = taken := by
  cases h with
  | misspelled h | refused h => exact h

namespace Setting

theorem judges_toNumber (name : String) (value : Json) :
    Judges value.toNumber ((base name).takes value) ((base name).misspells value) := by
  cases value with
  | int n => exact .ofKind _ _ rfl
  | string t =>
      rw [Json.toNumber, misspells]
      cases Decimal.float? t.readable with
      | none => exact .misspelled rfl
      | some x => exact .accepted x
  | float x => exact .accepted x
  | bool b => exact .accepted _
  | null | array items | object members => exact .refused rfl

theorem judges_algorithm (value : Json) :
    Judges (DarkMethod.parse value) (algorithm.takes value) (algorithm.misspells value) := by
  rw [DarkMethod.parse, misspells]
  cases DarkMethod.ofName? value.display.lower.readable with
  | none => exact .misspelled rfl
  | some method => exact .accepted method

theorem judges_features (value : Json) :
    Judges (Feature.parse value) (features.takes value) (features.misspells value) := by
  cases value with
  | string t =>
      rw [Feature.parse]
      split <;> exact .accepted _
  | null | array items | object members => exact .accepted _
  | bool b | int n | float x => exact .refused rfl

theorem judges_prefixes (value : Json) (old : Series → CodeText) :
    Judges (Series.overlay value old) (prefixes.takes value) (prefixes.misspells value) := by
  cases value with
  | object members =>
      rw [Series.overlay]
      split <;> exact .accepted _
  | null => exact .accepted old
  | bool b => exact .ofKind (!(Json.bool b).isSet) old rfl
  | int n => exact .ofKind (!(Json.int n).isSet) old rfl
  | float x => exact .ofKind (!(Json.float x).isSet) old rfl
  | string t => exact .ofKind (!(Json.string t).isSet) old rfl
  | array items => exact .ofKind (!(Json.array items).isSet) old rfl

theorem judges_ofItem (item : Json) :
    Judges (Conversion.ofItem item) (isConversion item) false := by
  cases item with
  | string t | array items | object members => exact .accepted _
  | null | bool b | int n | float x => exact .refused rfl

/-- Items are read one by one, up to the first that is no conversion. -/
theorem judges_items (items : List Json) :
    Judges (items.mapM Conversion.ofItem) (items.all isConversion) false := by
  induction items with
  | nil => exact .accepted []
  | cons item items ih =>
      rw [List.mapM_cons, List.all_cons]
      have first := judges_ofItem item
      generalize Conversion.ofItem item = x, isConversion item = taken at first
      cases first with
      | refused h => exact .refused h
      | accepted c =>
          generalize items.mapM Conversion.ofItem = rest, items.all isConversion = all at ih
          cases ih with
          | refused h => exact .refused h
          | accepted cs => exact .accepted (c :: cs)

theorem judges_conversions (value : Json) :
    Judges (Conversion.parse value) (conversions.takes value) (conversions.misspells value) := by
  cases value with
  | null => exact .accepted []
  | bool b => exact .ofKind (!(Json.bool b).isSet) [] rfl
  | int n => exact .ofKind (!(Json.int n).isSet) [] rfl
  | float x => exact .ofKind (!(Json.float x).isSet) [] rfl
  | string t =>
      rw [Conversion.parse]
      split <;> exact .accepted _
  | array items =>
      cases items with
      | nil => exact .accepted []
      | cons item items => exact (judges_items (item :: items)).map _
  | object members =>
      cases members with
      | nil => exact .accepted []
      | cons member members =>
          let names := (member :: members).map fun member => Json.string member.1
          have all : names.all isConversion = true := by simp [names, isConversion]
          have judged := judges_items names
          rw [all] at judged
          exact judged.map _

theorem judges_check (s : Setting) (value : Json) :
    Judges (s.check value) (s.takes value) (s.misspells value) := by
  cases s with
  | base name => exact (judges_toNumber name value).map _
  | algorithm => exact (judges_algorithm value).map _
  | features => exact (judges_features value).map _
  | prefixes => exact (judges_prefixes value _).map _
  | conversions => exact (judges_conversions value).map _

end Setting

theorem outcomeOnly_overlay (value : Json) (old old' : Series → CodeText) :
    outcomeOnly (Series.overlay value old) = outcomeOnly (Series.overlay value old') := by
  unfold Series.overlay
  split
  · rfl
  · split <;> rfl

theorem overlay_getD (value : Option Json) (old : Series → CodeText) :
    Series.overlay (value.getD .null) old = value.elim (.ok old) (Series.overlay · old) := by
  cases value <;> rfl

section Members

variable {members : List (CodeText × Json)}

/-- One setting is read, and then the rest. -/
theorem outcomeOnly_cons {α β : Type} (s : Setting) {rest : List Setting} {old : α}
    {read : Json → Except OptionError α} {f : α → Except OptionError β}
    (reads : ∀ value, s.check value = outcomeOnly (read value))
    (later : ∀ a, outcomeOnly (f a) = rest.forM (Setting.checkIn members)) :
    outcomeOnly ((s.value? members).elim (.ok old) read >>= f) =
      (s :: rest).forM (Setting.checkIn members) := by
  have first : outcomeOnly ((s.value? members).elim (.ok old) read) = s.checkIn members := by
    rw [Setting.checkIn]
    cases s.value? members with
    | none => rfl
    | some value => exact (reads value).symm
  rw [outcomeOnly_bind later, first]
  rfl

/-- Settings are read one by one, whatever they are put over. -/
theorem outcomeOnly_overlayMembers (c : Config) :
    outcomeOnly (c.overlayMembers members) = Setting.all.forM (Setting.checkIn members) := by
  rw [Config.overlayMembers, LengthBases.overlay, Setting.all]
  simp only [bind_assoc, pure_bind, overlay_getD]
  refine outcomeOnly_cons (.base "root_px") (fun _ => rfl) fun root => ?_
  refine outcomeOnly_cons (.base "context_px") (fun _ => rfl) fun context => ?_
  refine outcomeOnly_cons (.base "viewport_width_px") (fun _ => rfl) fun width => ?_
  refine outcomeOnly_cons (.base "viewport_height_px") (fun _ => rfl) fun height => ?_
  refine outcomeOnly_cons (.base "percent_base_px") (fun _ => rfl) fun percent => ?_
  refine outcomeOnly_cons (.base "ch_px") (fun _ => rfl) fun character => ?_
  refine outcomeOnly_cons .algorithm (fun _ => rfl) fun algorithm => ?_
  refine outcomeOnly_cons .features (fun _ => rfl) fun features => ?_
  refine outcomeOnly_cons .prefixes (fun value => outcomeOnly_overlay value _ _) fun _ => ?_
  exact outcomeOnly_cons .conversions (fun _ => rfl) fun conversions => rfl

variable (members)

/-- The setting can be read, if it is given. -/
def Setting.IsFine (s : Setting) : Prop :=
  ∀ value, s.value? members = some value → s.takes value = true ∧ s.misspells value = false

/-- A setting is given a value of a kind that it does not take, and all that are read before it can
be read. -/
def RefusesKind : Prop :=
  ∃ front s back value, Setting.all = front ++ s :: back ∧
    (∀ earlier ∈ front, earlier.IsFine members) ∧ s.value? members = some value ∧
    s.takes value = false

variable {members}

namespace Setting

variable {s : Setting} {value : Json}

theorem judges_checkIn (given : s.value? members = some value) :
    Judges (s.checkIn members) (s.takes value) (s.misspells value) := by
  rw [checkIn, given]
  exact s.judges_check value

theorem checkIn_eq_ok_iff : s.checkIn members = .ok () ↔ s.IsFine members := by
  cases given : s.value? members with
  | none =>
      rw [checkIn, IsFine, given]
      exact ⟨fun _ => nofun, fun _ => rfl⟩
  | some value =>
      rw [(judges_checkIn given).eq_ok_iff, IsFine, given]
      exact ⟨by rintro fine _ ⟨⟩; exact fine, fun fine => fine value rfl⟩

theorem exists_value_of_checkIn_eq_error {e : OptionError} (h : s.checkIn members = .error e) :
    ∃ value, s.value? members = some value ∧ e.isUnreadable = s.takes value := by
  cases given : s.value? members with
  | none =>
      rw [checkIn, given] at h
      cases h
  | some value =>
      have judged := judges_checkIn given
      rw [h] at judged
      exact ⟨value, rfl, judged.isUnreadable_eq⟩

end Setting

theorem exists_overlayMembers_iff {c : Config} :
    (∃ c', c.overlayMembers members = .ok c') ↔ ∀ s ∈ Setting.all, s.IsFine members := by
  rw [← outcomeOnly_eq_ok_iff, outcomeOnly_overlayMembers, forM_eq_ok_iff]
  simp only [Setting.checkIn_eq_ok_iff]

/-- The error is that of the first setting that cannot be read. -/
theorem overlayMembers_eq_error_iff {c : Config} {e : OptionError} :
    c.overlayMembers members = .error e ↔ ∃ front s back, Setting.all = front ++ s :: back ∧
      (∀ earlier ∈ front, earlier.checkIn members = .ok ()) ∧ s.checkIn members = .error e := by
  rw [← outcomeOnly_eq_error_iff, outcomeOnly_overlayMembers, forM_eq_error_iff]

/-- An error that no text of a value has is one of a kind, and the first that there is. -/
theorem exists_overlayMembers_error_iff {c : Config} :
    (∃ e, c.overlayMembers members = .error e ∧ e.isUnreadable = false) ↔
      RefusesKind members := by
  constructor
  · rintro ⟨e, failed, kind⟩
    obtain ⟨front, s, back, order, before, here⟩ := overlayMembers_eq_error_iff.1 failed
    obtain ⟨value, given, told⟩ := Setting.exists_value_of_checkIn_eq_error here
    exact ⟨front, s, back, value, order, fun x hx => Setting.checkIn_eq_ok_iff.1 (before x hx),
      given, told.symm.trans kind⟩
  · rintro ⟨front, s, back, value, order, before, given, refused⟩
    cases here : s.checkIn members with
    | ok passed =>
        have fine := Setting.checkIn_eq_ok_iff.1 here value given
        cases refused.symm.trans fine.1
    | error e =>
        have judged := Setting.judges_checkIn given
        rw [here] at judged
        exact ⟨e, overlayMembers_eq_error_iff.2 ⟨front, s, back, order,
          fun x hx => Setting.checkIn_eq_ok_iff.2 (before x hx), here⟩,
          judged.isUnreadable_eq.trans refused⟩

end Members

end DesignTokens
