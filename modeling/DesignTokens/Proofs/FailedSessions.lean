import DesignTokens.Proofs.PrintedLines

/-!
Sessions that fail. The stages before the first write come one after another: the configuration, the
stylesheet, its size, its tokens. Each reads files and prints, and where one stops the session ends
with the files as they were. After them all actions are carried out, and none of these ends a
session with an exit code. Main statement: `files_run_of_failure`.
-/
namespace DesignTokens

open Printing

namespace Invocation

variable {files : Files} {web : Web} {i : Invocation}

/-- How a session stops before its first write: the stages before one go on, and this one stops. -/
inductive Stops (files : Files) (web : Web) (i : Invocation) : Ending → Prop where
  | configuration {ending : Ending} (stop : (i.config files).outcome.2 = .error ending) :
      Stops files web i ending
  | input {config : Config} {ending : Ending} (settled : (i.config files).outcome.2 = .ok config)
      (stop : (i.readInput files web).outcome.2 = .error ending) : Stops files web i ending
  | size {config : Config} {css : Text} {ending : Ending}
      (settled : (i.config files).outcome.2 = .ok config)
      (given : (i.readInput files web).outcome.2 = .ok css)
      (stop : (i.checkSize (Utf8.encode css).length).outcome.2 = .error ending) :
      Stops files web i ending
  | tokens {config : Config} {css : Text} {fault : NumberFault}
      (settled : (i.config files).outcome.2 = .ok config)
      (given : (i.readInput files web).outcome.2 = .ok css)
      (fits : (i.checkSize (Utf8.encode css).length).outcome.2 = .ok ())
      (stop : Tokenization.ofText config css = .error fault) :
      Stops files web i (.failed (.number fault))

/-- What the stages before the first write are together. -/
theorem result_prepare (files : Files) (web : Web) (i : Invocation) :
    (i.prepare files web).outcome.2 = do
      let config ← (i.config files).outcome.2
      let css ← (i.readInput files web).outcome.2
      (i.checkSize (Utf8.encode css).length).outcome.2
      let r ← (Tokenization.ofText config css).mapError fun fault => .failed (.number fault)
      return i.actions r := by
  have making (config : Config) (css : Text) : Appends (orFail .number
      (Tokenization.ofText config css) >>= fun r => (pure (i.actions r) : Printing _ _)) :=
    appends_bind (appends_orFail _ _) fun _ => appends_pure _
  have telling (config : Config) (css : Text) (_ : Unit) :=
    appends_bind (appends_line ("Parsing CSS: ".toList ++ i.input ++
      s!" ({(Utf8.encode css).length} bytes)".toList)) fun _ => making config css
  have checking (config : Config) (css : Text) :=
    appends_bind (appends_checkSize i (Utf8.encode css).length) (telling config css)
  have reading (config : Config) := appends_bind (appends_readInput files web i) (checking config)
  rw [prepare, result_bind _ reading]
  refine bind_congr fun config => ?_
  rw [result_bind _ (checking config)]
  refine bind_congr fun css => ?_
  rw [result_bind _ (telling config css)]
  refine bind_congr fun _ => ?_
  rw [result_bind _ fun _ => making config css]
  change (orFail .number (Tokenization.ofText config css) >>= _).outcome.2 = _
  rw [result_bind _ fun _ => appends_pure _, orFail, result_ofExcept]
  rfl

theorem result_prepare_eq_error_iff {ending : Ending} :
    (i.prepare files web).outcome.2 = .error ending ↔ i.Stops files web ending := by
  rw [result_prepare]
  constructor
  · intro stop
    rcases bind_eq_error_iff.1 stop with stop | ⟨config, settled, stop⟩
    · exact .configuration stop
    rcases bind_eq_error_iff.1 stop with stop | ⟨css, given, stop⟩
    · exact .input settled stop
    rcases bind_eq_error_iff.1 stop with stop | ⟨_, fits, stop⟩
    · exact .size settled given stop
    rcases bind_eq_error_iff.1 stop with stop | ⟨r, -, stop⟩
    · obtain ⟨fault, refused, rfl⟩ := mapError_eq_error_iff.1 stop
      exact .tokens settled given fits refused
    · cases stop
  · have later {α β : Type} {x : Except Ending α} {a : α} {f : α → Except Ending β}
        (go : x = .ok a) (stop : f a = .error ending) : x >>= f = .error ending :=
      bind_eq_error_iff.2 (.inr ⟨a, go, stop⟩)
    rintro (stop | ⟨settled, stop⟩ | ⟨settled, given, stop⟩ | ⟨settled, given, fits, stop⟩)
    · exact bind_eq_error_iff.2 (.inl stop)
    · exact later settled (bind_eq_error_iff.2 (.inl stop))
    · exact later settled (later given (bind_eq_error_iff.2 (.inl stop)))
    · refine later settled (later given (later fits (bind_eq_error_iff.2 (.inl ?_))))
      exact mapError_eq_error_iff.2 ⟨_, stop, rfl⟩

end Invocation

namespace Session

/-- An action ends a session by a fault or not at all. -/
theorem ending_perform {s : Session} (h : s.ending = .finished) (actions : List Action) :
    (perform s actions).ending = .finished ∨
      ∃ fault, (perform s actions).ending = .failed fault := by
  induction actions generalizing s with
  | nil => exact .inl h
  | cons action actions ih =>
      cases action with
      | print line => exact ih h
      | write path content =>
          rw [perform]
          split
          · exact ih h
          · exact .inr ⟨_, rfl⟩
      | fail fault => exact .inr ⟨fault, rfl⟩

variable {files : FileTree} {web : Web} {arguments : List Text}

theorem run_of_error {ending : Ending}
    (h : (Request.prepare files.read web arguments).outcome.2 = .error ending) :
    (run files web arguments).ending = ending ∧ (run files web arguments).files = files := by
  rcases prepared : (Request.prepare files.read web arguments).outcome with ⟨said, result⟩
  rw [prepared] at h
  subst h
  rw [run, prepared]
  exact ⟨rfl, rfl⟩

/-- Sessions that get to their actions have no exit code. -/
theorem not_exit_of_ok {actions : List Action}
    (h : (Request.prepare files.read web arguments).outcome.2 = .ok actions) (code : Nat) :
    (run files web arguments).ending ≠ .exit code := by
  rcases prepared : (Request.prepare files.read web arguments).outcome with ⟨said, result⟩
  rw [prepared] at h
  subst h
  rw [run, prepared]
  intro exits
  rcases ending_perform (s := ⟨said, files, .finished⟩) rfl actions with finished | ⟨fault, failed⟩
  · cases finished.symm.trans exits
  · cases failed.symm.trans exits

/-- A session that ends with an exit code other than zero, or by a fault before its first write,
leaves all files and directories as they were. -/
theorem files_run_of_failure (files : FileTree) (web : Web) (arguments : List Text) :
    (∀ code, code ≠ 0 → (run files web arguments).ending = .exit code →
      (run files web arguments).files = files) ∧
    ∀ i fault, Request.parse arguments = .ok (.run i) → i.Stops files.read web (.failed fault) →
      (run files web arguments).ending = .failed fault ∧
        (run files web arguments).files = files := by
  constructor
  · intro code _ exits
    cases prepared : (Request.prepare files.read web arguments).outcome.2 with
    | error ending => exact (run_of_error prepared).2
    | ok actions => exact absurd exits (not_exit_of_ok prepared code)
  · intro i fault parsed stops
    refine run_of_error ?_
    rw [Request.prepare, parsed]
    exact Invocation.result_prepare_eq_error_iff.2 stops

/-- A color that no palette can take: its share of red is beyond all numbers. -/
def refusedSheet : Text := "a\x7bcolor:rgb(1e400%,0,0)\x7d".toList

/-- A directory with this sheet in it. -/
def refusedFiles : FileTree := .ofList [(.ofText "a.css".toList, Utf8.encode refusedSheet)]

/-- A web without pages. -/
def noPages : Web := fun _ => .error []

/-- A limit that the sheet is above. -/
def limited : List Text := ["a.css".toList, "--max-bytes=3".toList]

theorem files_run_refusedFiles :
    (run refusedFiles noPages limited).ending = .exit 1 ∧
      (run refusedFiles noPages limited).files = refusedFiles ∧
      ∃ i fault, Request.parse ["a.css".toList] = .ok (.run i) ∧
        i.Stops refusedFiles.read noPages (.failed fault) ∧
        (run refusedFiles noPages ["a.css".toList]).ending = .failed fault ∧
        (run refusedFiles noPages ["a.css".toList]).files = refusedFiles := by
  have exits : (run refusedFiles noPages limited).ending = .exit 1 := rfl
  let i : Invocation := { input := "a.css".toList }
  have parsed : Request.parse ["a.css".toList] = .ok (.run i) := rfl
  have refused : (Tokenization.ofText .default refusedSheet).isOk = false := by decide +kernel
  cases made : Tokenization.ofText .default refusedSheet with
  | error fault =>
      have stops : i.Stops refusedFiles.read noPages (.failed (.number fault)) :=
        .tokens (rfl : (i.config refusedFiles.read).outcome.2 = .ok .default) rfl rfl made
      exact ⟨exits, (files_run_of_failure _ _ _).1 1 (by decide) exits, i, _, parsed, stops,
        (files_run_of_failure _ _ _).2 i _ parsed stops⟩
  | ok r =>
      rw [made] at refused
      cases refused

end Session

end DesignTokens
