import DesignTokens.Proofs.GivenSettings
import DesignTokens.Proofs.OrderedMaps

/-!
Options on a command line. A flag gives its option a value of a kind that the setting takes, and
spelled right, since otherwise the flag is refused. Only `--` after an equals sign is taken by every
flag. Main statement: `isFine_of_parse`.
-/
namespace DesignTokens

theorem CodeText.ofText_injective : Function.Injective ofText := by
  intro t t' h
  rw [← readable_ofText t, h, readable_ofText]

namespace Setting

/-- The names in options that are read as the setting. -/
def names : Setting → List Text
  | base name => [name.toList]
  | algorithm => ["algorithm".toList, "dark_algorithm".toList]
  | features => ["features".toList]
  | prefixes => ["prefixes".toList]
  | conversions => ["convert".toList, "conversions".toList]

/-- The value goes with a name, whichever setting is read by it. -/
def Fits (name : Text) (value : Json) : Prop :=
  ∀ s ∈ all, name ∈ s.names → s.takes value = true ∧ s.misspells value = false

theorem mem_of_given? {members : List (CodeText × Json)} {name : String} {value : Json}
    (h : Json.given? members name = some value) : (.ofText name.toList, value) ∈ members := by
  rw [Json.given?] at h
  split at h
  · cases h
  · cases h
  · rename_i found
    cases h
    exact mem_of_lookup_eq_some found

theorem exists_mem_of_value? {members : List (CodeText × Json)} {s : Setting} {value : Json}
    (h : s.value? members = some value) :
    ∃ name ∈ s.names, (.ofText name, value) ∈ members := by
  cases s with
  | base name => exact ⟨_, List.mem_singleton_self _, mem_of_given? h⟩
  | features | prefixes => exact ⟨_, List.mem_singleton_self _, mem_of_given? h⟩
  | algorithm | conversions =>
      rw [value?, Json.givenAs?] at h
      split at h
      · exact ⟨_, List.mem_cons_self, mem_of_given? h⟩
      · exact ⟨_, List.mem_cons_of_mem _ (List.mem_singleton_self _), mem_of_given? h⟩

end Setting

namespace Invocation

/-- The options on the command line as members of an object. -/
def members (i : Invocation) : List (CodeText × Json) :=
  (("prefixes".toList, .record i.prefixes) :: i.options).map fun (name, value) =>
    (.ofText name, value)

/-- Each option has a value that goes with its name. -/
def GivesFine (i : Invocation) : Prop := ∀ e ∈ i.options, Setting.Fits e.1 e.2

theorem GivesFine.isFine {i : Invocation} (h : i.GivesFine) :
    ∀ s ∈ Setting.all, s.IsFine i.members := by
  intro s hs value given
  obtain ⟨name, known, mem⟩ := Setting.exists_mem_of_value? given
  obtain ⟨e, he, same⟩ := List.mem_map.1 mem
  obtain ⟨spelled, rfl⟩ := Prod.mk.inj same
  have spelled := CodeText.ofText_injective spelled
  subst spelled
  rcases List.mem_cons.1 he with rfl | he
  · have prefixes : ∀ s ∈ Setting.all, "prefixes".toList ∈ s.names → s = .prefixes := by decide
    rw [prefixes s hs known]
    exact ⟨rfl, rfl⟩
  · exact h e he s hs known

theorem GivesFine.withOption {i : Invocation} (h : i.GivesFine) {name : String} {value : Json}
    (fits : Setting.Fits name.toList value) : (i.withOption name value).GivesFine := by
  intro e he
  rcases List.mem_cons.1 he with rfl | he
  · exact fits
  · exact h e he

end Invocation

namespace Flag

/-- A flag that gives its option a value that goes with it, whatever text it reads. -/
def Keeps (f : Flag) : Prop :=
  match f.effect with
  | .help => True
  | .switch set => ∀ i, i.GivesFine → (set i).GivesFine
  | .value set? _ => ∀ t i i', set? t i = some i' → i.GivesFine → i'.GivesFine

theorem keeps_path {name purpose : String} {set : Option Text → Invocation → Invocation}
    (h : ∀ p i, (set p i).options = i.options) : (path name set purpose).Keeps := by
  rintro t i _ ⟨⟩ fine
  rw [Invocation.GivesFine, h]
  exact fine

theorem keeps_readOption {read? : Text → Option Json} {name option purpose : String}
    (h : ∀ t value, read? t = some value → Setting.Fits option.toList value) :
    (readOption read? name option purpose).Keeps := by
  intro t i i' given fine
  obtain ⟨value, read, rfl⟩ := Option.map_eq_some_iff.1 given
  exact fine.withOption (h t value read)

theorem keeps_textOption {name option purpose : String}
    (h : ∀ s ∈ Setting.all, option.toList ∈ s.names → s = .features ∨ s = .conversions) :
    (textOption name option purpose).Keeps := by
  refine keeps_readOption ?_
  rintro t _ ⟨⟩ s hs known
  rcases h s hs known with rfl | rfl
  · exact ⟨rfl, rfl⟩
  · exact ⟨rfl, rfl⟩

theorem keeps_numberOption {name option purpose : String}
    (h : ∀ s ∈ Setting.all, option.toList ∈ s.names → s = .base option) :
    (numberOption name option purpose).Keeps := by
  refine keeps_readOption ?_
  intro t value read s hs known
  obtain ⟨x, -, rfl⟩ := Option.map_eq_some_iff.1 read
  rw [h s hs known]
  exact ⟨rfl, rfl⟩

theorem keeps_algorithmOption {name purpose : String} :
    (algorithmOption name "algorithm" purpose).Keeps := by
  refine keeps_readOption ?_
  intro t value read s hs known
  obtain ⟨method, found, rfl⟩ := Option.map_eq_some_iff.1 read
  have algorithm : ∀ s ∈ Setting.all, "algorithm".toList ∈ s.names → s = .algorithm := by decide
  rw [algorithm s hs known]
  rw [DarkMethod.ofName?] at found
  have spelled := List.find?_some found
  rw [decide_eq_true_iff] at spelled
  subst spelled
  cases method <;> decide

theorem keeps_switchOption {name option purpose : String}
    (h : ∀ s ∈ Setting.all, option.toList ∉ s.names) : (switchOption name option purpose).Keeps :=
  fun _ fine => fine.withOption fun s hs known => absurd known (h s hs)

theorem keeps_seriesPrefix (s : Series) : (seriesPrefix s).Keeps := by
  rintro t i _ ⟨⟩ fine
  exact fine

theorem keeps_of_mem_all : ∀ f ∈ all, f.Keeps := by
  rw [all, List.forall_mem_append, List.forall_mem_append]
  refine ⟨⟨?_, ?_⟩, ?_⟩
  · simp only [List.forall_mem_cons]
    refine ⟨trivial, ?_, keeps_path fun _ _ => rfl, keeps_path fun _ _ => rfl,
      keeps_algorithmOption, keeps_textOption (by decide), keeps_textOption (by decide),
      keeps_path fun _ _ => rfl, keeps_numberOption (by decide), keeps_numberOption (by decide),
      keeps_numberOption (by decide), keeps_numberOption (by decide),
      keeps_numberOption (by decide), keeps_numberOption (by decide),
      keeps_switchOption (by decide), keeps_switchOption (by decide), nofun⟩
    rintro t i _ ⟨⟩ fine
    exact fine
  · intro f hf
    obtain ⟨s, -, rfl⟩ := List.mem_map.1 hf
    exact keeps_seriesPrefix s
  · simp only [List.forall_mem_cons]
    refine ⟨keeps_path fun _ _ => rfl, ?_, fun i fine => fine, nofun⟩
    intro t i i' read fine
    obtain ⟨n, -, rfl⟩ := Option.map_eq_some_iff.1 read
    exact fine

end Flag

namespace Argument

/-- An argument that gives no flag the value `--`. -/
def IsPlain : Argument → Prop
  | .flag f value => f.Keeps ∧ (value = some "--".toList → f.effect = .help)
  | _ => True

theorem isPlain_flag {f : Flag} (h : f ∈ Flag.all) {value : Option Text}
    (plain : value ≠ some "--".toList) : (flag f value).IsPlain :=
  ⟨Flag.keeps_of_mem_all f h, fun same => absurd same plain⟩

theorem isPlain_help (value : Option Text) : (flag help value).IsPlain := ⟨trivial, fun _ => rfl⟩

theorem isPlain_unmatched (t : Text) : (unmatched t).IsPlain := by
  rw [unmatched]
  split <;> trivial

theorem isPlain_abbreviated {t : Text} {a : Argument}
    (plain : (Text.cut '=' t).2 ≠ some "--".toList) (h : abbreviated t = .ok a) : a.IsPlain := by
  rw [abbreviated] at h
  dsimp only at h
  split at h
  · cases h
    exact isPlain_unmatched t
  · rename_i f found
    cases h
    have known : f ∈ Flag.startingWith (Text.cut '=' t).1 := found ▸ List.mem_singleton_self f
    exact isPlain_flag (List.mem_of_mem_filter known) plain
  · cases h

theorem isPlain_ofText {t : Text} {a : Argument} (plain : (Text.cut '=' t).2 ≠ some "--".toList)
    (h : ofText t = .ok a) : a.IsPlain := by
  unfold ofText at h
  dsimp only at h
  split at h
  · split at h
    · rename_i f found
      cases h
      exact isPlain_flag (List.mem_of_find?_eq_some found) nofun
    · rename_i f _ found
      cases h
      exact isPlain_flag (List.mem_of_find?_eq_some found) plain
    · exact isPlain_abbreviated plain h
  · rename_i letters
    cases h
    unfold shortHelp
    split <;> exact isPlain_help _
  · cases h
    exact isPlain_unmatched _
  · cases h
    trivial

theorem isPlain_ofTexts {arguments : List Text} {args : List Argument}
    (plain : ∀ t ∈ arguments, (Text.cut '=' t).2 ≠ some "--".toList)
    (h : ofTexts arguments = .ok args) : ∀ a ∈ args, a.IsPlain := by
  induction arguments generalizing args with
  | nil =>
      cases h
      exact nofun
  | cons t rest ih =>
      rw [List.forall_mem_cons] at plain
      rw [ofTexts] at h
      split at h
      · cases h
        rw [List.forall_mem_cons]
        refine ⟨trivial, fun a ha => ?_⟩
        obtain ⟨t, -, rfl⟩ := List.mem_map.1 ha
        trivial
      · obtain ⟨a, read, h⟩ := exists_of_bind_eq_ok h
        obtain ⟨later, others, h⟩ := exists_of_bind_eq_ok h
        cases h
        rw [List.forall_mem_cons]
        exact ⟨isPlain_ofText plain.1 read, ih plain.2 others⟩

end Argument

theorem Request.givesFine_ofArguments {args : List Argument} {i i' : Invocation}
    {input superfluous : Option Text} (plain : ∀ a ∈ args, a.IsPlain)
    (h : ofArguments i input superfluous args = .ok (.run i')) (fine : i.GivesFine) :
    i'.GivesFine := by
  fun_induction ofArguments i input superfluous args with
  | case1 | case2 | case10 | case13 | case15 | case16 | case17 | case18 => cases h
  | case3 =>
      cases h
      exact fine
  | case4 i superfluous t rest ih | case7 i superfluous t rest ih =>
      rw [List.forall_mem_cons, List.forall_mem_cons] at plain
      exact ih plain.2.2 h fine
  | case5 i superfluous t rest _ ih | case6 i superfluous t input rest ih
  | case8 i input superfluous rest _ ih | case9 i input superfluous t rest ih =>
      rw [List.forall_mem_cons] at plain
      exact ih plain.2 h fine
  | case11 i input superfluous f set rest effect ih =>
      rw [List.forall_mem_cons] at plain
      have keeps := plain.1.1
      rw [Flag.Keeps, effect] at keeps
      exact ih plain.2 h (keeps i fine)
  | case12 i input superfluous f set? setEmpty t rest effect j read ih =>
      rw [List.forall_mem_cons] at plain
      have given : t ≠ "--".toList := by
        rintro rfl
        cases effect.symm.trans (plain.1.2 rfl)
      have keeps := plain.1.1
      rw [Flag.Keeps, effect] at keeps
      rw [if_neg given] at read
      exact ih plain.2 h (keeps t i j read fine)
  | case14 i input superfluous f set? setEmpty t rest effect j read ih =>
      rw [List.forall_mem_cons, List.forall_mem_cons] at plain
      have keeps := plain.1.1
      rw [Flag.Keeps, effect] at keeps
      exact ih plain.2.2 h (keeps t i j read fine)

/-- Where no flag is given `--`, all options on the command line can be read. -/
theorem Request.isFine_of_parse {arguments : List Text} {i : Invocation}
    (plain : ∀ t ∈ arguments, (Text.cut '=' t).2 ≠ some "--".toList)
    (h : parse arguments = .ok (.run i)) : ∀ s ∈ Setting.all, s.IsFine i.members := by
  obtain ⟨args, read, h⟩ := exists_of_bind_eq_ok h
  have none : Invocation.GivesFine {} := nofun
  exact (givesFine_ofArguments (Argument.isPlain_ofTexts plain read) h none).isFine

end DesignTokens
