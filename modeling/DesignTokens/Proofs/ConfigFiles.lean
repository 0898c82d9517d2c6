import DesignTokens.Proofs.FailedSessions
import DesignTokens.Proofs.PlainArguments

/-!
Files of options. A file that cannot be read is reported and ends the session, but not all of them:
one whose values have wrong kinds, or are too deep inside of each other, ends it without a report.
Main statement: `settles_iff`.
-/
namespace DesignTokens

open Printing

namespace Config

/-- A file whose fault is not reported. -/
inductive Escapes (content : Bytes) : Prop where
  | tooDeep {container : JsonContainer} {source : Text}
      (read : readFile content = .error (.json (.tooDeep container) source)) : Escapes content
  | notObject {options : Json} (read : readFile content = .ok options)
      (kind : ∀ members, options ≠ .object members) : Escapes content
  | setting {members : List (CodeText × Json)} (read : readFile content = .ok (.object members))
      (kind : RefusesKind members) : Escapes content

theorem overlayFile_of_ok {content : Bytes} {options : Json} (read : readFile content = .ok options)
    (c : Config) : c.overlayFile content = (c.overlay options).mapError .option := by
  rw [overlayFile, read]
  rfl

theorem isUnreadable_of_readFile_eq_error {content : Bytes} {e : ConfigFileError}
    (h : readFile content = .error e) :
    e.isUnreadable = true ∨ ∃ container source, e = .json (.tooDeep container) source := by
  rcases bind_eq_error_iff.1 h with decoding | ⟨text, -, parsing⟩
  · obtain ⟨fault, -, rfl⟩ := mapError_eq_error_iff.1 decoding
    exact .inl rfl
  · obtain ⟨fault, -, rfl⟩ := mapError_eq_error_iff.1 parsing
    cases fault with
    | tooDeep container => exact .inr ⟨container, _, rfl⟩
    | fault cause position | tooManyDigits count => exact .inl rfl

/-- Errors that are not reported are those of the files that escape. -/
theorem exists_overlayFile_error_iff {content : Bytes} {c : Config} :
    (∃ e, c.overlayFile content = .error e ∧ e.isUnreadable = false) ↔ Escapes content := by
  constructor
  · rintro ⟨e, failed, kind⟩
    rcases bind_eq_error_iff.1 failed with read | ⟨options, read, failed⟩
    · rcases isUnreadable_of_readFile_eq_error read with reported | ⟨container, source, rfl⟩
      · cases kind.symm.trans reported
      · exact .tooDeep read
    · obtain ⟨fault, refused, rfl⟩ := mapError_eq_error_iff.1 failed
      cases options with
      | object members =>
          exact .setting read (exists_overlayMembers_error_iff.1 ⟨fault, refused, kind⟩)
      | null | bool b | int n | float x | string t | array items => exact .notObject read nofun
  · rintro (read | @⟨options, read, kind⟩ | ⟨read, kind⟩)
    · exact ⟨_, bind_eq_error_iff.2 (.inl read), rfl⟩
    · rw [overlayFile_of_ok read]
      cases options with
      | object members => exact absurd rfl (kind members)
      | null | bool b | int n | float x | string t | array items => exact ⟨_, rfl, rfl⟩
    · obtain ⟨e, refused, told⟩ := exists_overlayMembers_error_iff.2 kind
      rw [overlayFile_of_ok read]
      exact ⟨_, mapError_eq_error_iff.2 ⟨e, refused, rfl⟩, told⟩

end Config

namespace Invocation

variable {files : Files} {i : Invocation} {path : Text} {content : Bytes}

/-- What is printed of a file of options that is refused. -/
def refusal (path message : Text) : Text :=
  "Error: Invalid config file ".toList ++ path ++ ": ".toList ++ message ++ ['\n']

/-- The configuration is made, or the file of options is reported. -/
def Settles (files : Files) (i : Invocation) : Prop :=
  (∃ config, (i.config files).outcome.2 = .ok config) ∨
    ∃ path message, i.configPath = some path ∧
      (i.config files).outcome = (refusal path message, .error (.exit 1))

theorem outcome_refuse {α : Type} (message : Text) :
    (refuse message : Printing Ending α).outcome =
      ("Error: ".toList ++ message ++ ['\n'], .error (.exit 1)) := rfl

theorem refusal_eq (path message : Text) :
    "Error: ".toList ++ ("Invalid config file ".toList ++ path ++ ": ".toList ++ message) ++
      ['\n'] = refusal path message := by
  have start : "Error: Invalid config file ".toList =
      "Error: ".toList ++ "Invalid config file ".toList := rfl
  unfold refusal
  rw [start]
  simp only [List.append_assoc]

theorem outcome_fileConfig (named : i.configPath = some path)
    (found : files (Path.ofText path) = .ok content) :
    (i.fileConfig files).outcome =
      match Config.default.overlayFile content with
      | .ok config => ([], .ok config)
      | .error e =>
        if e.isUnreadable then (refusal path e.message, .error (.exit 1))
        else ([], .error (.failed (.configFile e))) := by
  rw [fileConfig, named]
  dsimp only
  rw [content?, found]
  change (match Config.default.overlayFile content with
    | .ok config => pure config
    | .error e => _ : Printing Ending Config).outcome = _
  cases Config.default.overlayFile content with
  | ok config => rfl
  | error e =>
      dsimp only
      split
      · exact (outcome_refuse _).trans (congrArg (·, _) (refusal_eq path e.message))
      · rfl

/-- Where the file is read, it is up to the options on the command line. -/
theorem settles_iff_of_ok {config : Config}
    (file : (i.fileConfig files).outcome = ([], .ok config)) :
    i.Settles files ↔ ∀ s ∈ Setting.all, s.IsFine i.members := by
  have outcome : (i.config files).outcome = _ :=
    outcome_bind_ok file (appends_orFail .option (config.overlay i.settings))
  have fine : (∃ c, config.overlay i.settings = .ok c) ↔
      ∀ s ∈ Setting.all, s.IsFine i.members := exists_overlayMembers_iff
  rw [← fine, Settles, outcome]
  cases config.overlay i.settings with
  | ok c => exact ⟨fun _ => ⟨c, rfl⟩, fun _ => .inl ⟨c, rfl⟩⟩
  | error e =>
      constructor
      · rintro (⟨c, made⟩ | ⟨path, message, -, told⟩)
        · cases made
        · cases told
      · rintro ⟨c, made⟩
        cases made

theorem settles_iff_of_error {said : Text} {ending : Ending}
    (file : (i.fileConfig files).outcome = (said, .error ending)) :
    i.Settles files ↔ ∃ path message, i.configPath = some path ∧ ending = .exit 1 ∧
      said = refusal path message := by
  have outcome : (i.config files).outcome = (said, .error ending) := outcome_bind_error file _
  rw [Settles, outcome]
  constructor
  · rintro (⟨c, made⟩ | ⟨path, message, named, told⟩)
    · cases made
    · cases told
      exact ⟨path, message, named, rfl, rfl⟩
  · rintro ⟨path, message, named, rfl, rfl⟩
    exact .inr ⟨path, message, named, rfl⟩

/-- A file that escapes is never reported. All others are reported or read, and where they are read
the options on the command line decide. -/
theorem settles_iff_of_file (named : i.configPath = some path)
    (found : files (Path.ofText path) = .ok content) :
    i.Settles files ↔ ¬Config.Escapes content ∧
      ((∃ c, Config.default.overlayFile content = .ok c) →
        ∀ s ∈ Setting.all, s.IsFine i.members) := by
  have file := outcome_fileConfig named found
  rw [← Config.exists_overlayFile_error_iff (c := Config.default)]
  cases read : Config.default.overlayFile content with
  | ok config =>
      rw [read] at file
      rw [settles_iff_of_ok file]
      constructor
      · exact fun fine => ⟨nofun, fun _ => fine⟩
      · exact fun h => h.2 ⟨config, rfl⟩
  | error e =>
      rw [read] at file
      dsimp only at file
      split at file
      · rename_i reported
        rw [settles_iff_of_error file]
        constructor
        · intro _
          refine ⟨?_, nofun⟩
          rintro ⟨_, ⟨⟩, told⟩
          cases told.symm.trans reported
        · exact fun _ => ⟨path, e.message, named, rfl, rfl⟩
      · rename_i escapes
        rw [settles_iff_of_error file]
        constructor
        · rintro ⟨_, _, -, ⟨⟩, -⟩
        · rintro ⟨told, -⟩
          exact absurd ⟨e, rfl, by simpa using escapes⟩ told

end Invocation

namespace Session

variable {files : FileTree} {web : Web} {arguments : List Text} {i : Invocation} {path : Text}
  {content : Bytes}

/-- The session gets to its configuration, or it reports the file of options and ends with code 1.
-/
def Settles (files : FileTree) (web : Web) (arguments : List Text) (i : Invocation) : Prop :=
  (∃ config, (i.config files.read).outcome.2 = .ok config) ∨
    ∃ path message, i.configPath = some path ∧
      run files web arguments = ⟨Invocation.refusal path message, files, .exit 1⟩

theorem run_of_config_error (parsed : Request.parse arguments = .ok (.run i)) {said : Text}
    {ending : Ending} (stop : (i.config files.read).outcome = (said, .error ending)) :
    run files web arguments = ⟨said, files, ending⟩ := by
  have prepared : (i.prepare files.read web).outcome = (said, .error ending) :=
    outcome_bind_error stop _
  rw [run, Request.prepare, parsed]
  dsimp only
  rw [prepared]

theorem settles_iff_config (parsed : Request.parse arguments = .ok (.run i)) :
    Settles files web arguments i ↔ i.Settles files.read := by
  constructor
  · rintro (made | ⟨path, message, named, ends⟩)
    · exact .inl made
    rcases stop : (i.config files.read).outcome with ⟨said, ending | config⟩
    · rw [run_of_config_error parsed stop] at ends
      obtain ⟨rfl, -, rfl⟩ := Session.mk.inj ends
      exact .inr ⟨path, message, named, stop⟩
    · exact .inl ⟨config, congrArg Prod.snd stop⟩
  · rintro (made | ⟨path, message, named, stop⟩)
    · exact .inl made
    · exact .inr ⟨path, message, named, run_of_config_error parsed stop⟩

/-- A session that is given a file of options gets to its configuration or reports the file, unless
the file escapes or an option on the command line is given `--` as its value. -/
theorem settles_iff (parsed : Request.parse arguments = .ok (.run i))
    (named : i.configPath = some path) (found : files.read (Path.ofText path) = .ok content) :
    (Settles files web arguments i ↔ ¬Config.Escapes content ∧
      ((∃ c, Config.default.overlayFile content = .ok c) →
        ∀ s ∈ Setting.all, s.IsFine i.members)) ∧
    ((∀ t ∈ arguments, (Text.cut '=' t).2 ≠ some "--".toList) →
      (Settles files web arguments i ↔ ¬Config.Escapes content)) := by
  have settles : Settles files web arguments i ↔ _ :=
    (settles_iff_config parsed).trans (Invocation.settles_iff_of_file named found)
  refine ⟨settles, fun plain => settles.trans ?_⟩
  exact ⟨fun h => h.1, fun h => ⟨h, fun _ => Request.isFine_of_parse plain parsed⟩⟩

/-- The arguments for a file of options. -/
def withOptions : List Text := ["a.css".toList, "--config=c.json".toList]

/-- What they ask for. -/
def optionsGiven : Invocation := { input := "a.css".toList, configPath := some "c.json".toList }

/-- A directory with a file of options in it. -/
def optionsFile (options : Text) : FileTree :=
  .ofList [(.ofText "c.json".toList, Utf8.encode options)]

/-- A file in which the base is misspelled, and features after it have a wrong kind. -/
def misspelledBase : Text := "\x7b\"root_px\": \"wide\", \"features\": 3\x7d".toList

theorem settles_iff_misspelledBase :
    Request.parse withOptions = .ok (.run optionsGiven) ∧
      optionsGiven.configPath = some "c.json".toList ∧
      (optionsFile misspelledBase).read (Path.ofText "c.json".toList) =
        .ok (Utf8.encode misspelledBase) ∧
      (∀ t ∈ withOptions, (Text.cut '=' t).2 ≠ some "--".toList) ∧
      ¬Config.Escapes (Utf8.encode misspelledBase) ∧
      Settles (optionsFile misspelledBase) noPages withOptions optionsGiven := by
  have parsed : Request.parse withOptions = .ok (.run optionsGiven) := rfl
  have found : (optionsFile misspelledBase).read (Path.ofText "c.json".toList) =
      .ok (Utf8.encode misspelledBase) := rfl
  have plain : ∀ t ∈ withOptions, (Text.cut '=' t).2 ≠ some "--".toList := by decide
  have reported : (match Config.default.overlayFile (Utf8.encode misspelledBase) with
      | .ok _ => false
      | .error e => e.isUnreadable) = true := by decide +kernel
  have stays : ¬Config.Escapes (Utf8.encode misspelledBase) := by
    intro escapes
    obtain ⟨e, failed, told⟩ := Config.exists_overlayFile_error_iff.2 escapes
    rw [failed] at reported
    cases told.symm.trans reported
  exact ⟨parsed, rfl, found, plain, stays, ((settles_iff parsed rfl found).2 plain).2 stays⟩

/-- An empty list in place of options is not reported. -/
theorem not_settles_emptyList :
    Request.parse withOptions = .ok (.run optionsGiven) ∧
      (run (optionsFile "[]".toList) noPages withOptions).ending =
        .failed (.configFile (.option (.optionsNotObject "list"))) ∧
      ¬Settles (optionsFile "[]".toList) noPages withOptions optionsGiven := by
  have ends : (run (optionsFile "[]".toList) noPages withOptions).ending =
      .failed (.configFile (.option (.optionsNotObject "list"))) := rfl
  refine ⟨rfl, ends, ?_⟩
  rintro (⟨config, made⟩ | ⟨path, message, -, told⟩)
  · cases made
  · rw [told] at ends
    cases ends

end Session

end DesignTokens
