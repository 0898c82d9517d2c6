import DesignTokens.CommandLine.Session
import DesignTokens.Proofs.Results

/-!
Computations that print. What a computation does never depends on the text that stands before its
own, so computations one after another do what each does alone, up to the first that stops. All
stages of a session before its first write are of this kind. Main statement: `appends_bind`.
-/
namespace DesignTokens

namespace Printing

variable {ε ε' α β : Type}

/-- What was printed before has no effect on a computation, which puts its text after it. -/
def Appends (p : Printing ε α) : Prop :=
  ∀ before, StateT.run (ExceptT.run p) before = (p.outcome.2, before ++ p.outcome.1)

theorem run_bind (p : Printing ε α) (f : α → Printing ε β) (before : Text) :
    StateT.run (ExceptT.run (p >>= f)) before =
      match StateT.run (ExceptT.run p) before with
      | (.ok x, said) => StateT.run (ExceptT.run (f x)) said
      | (.error e, said) => (.error e, said) := by
  rw [ExceptT.run_bind, StateT.run_bind]
  rcases StateT.run (ExceptT.run p) before with ⟨result, said⟩
  cases result <;> rfl

theorem run_of_outcome {p : Printing ε α} {said : Text} {result : Except ε α}
    (h : p.outcome = (said, result)) : StateT.run (ExceptT.run p) [] = (result, said) := by
  obtain ⟨rfl, rfl⟩ := Prod.mk.inj h
  rfl

/-- A computation that stops is the last. -/
theorem outcome_bind_error {p : Printing ε α} {said : Text} {e : ε}
    (h : p.outcome = (said, .error e)) (f : α → Printing ε β) :
    (p >>= f).outcome = (said, .error e) := by
  rw [outcome, run_bind, run_of_outcome h]

theorem outcome_bind_ok {p : Printing ε α} {said : Text} {x : α}
    (h : p.outcome = (said, .ok x)) {f : α → Printing ε β} (hf : Appends (f x)) :
    (p >>= f).outcome = (said ++ (f x).outcome.1, (f x).outcome.2) := by
  rw [outcome, run_bind, run_of_outcome h]
  change ((StateT.run (ExceptT.run (f x)) said).2, (StateT.run (ExceptT.run (f x)) said).1) = _
  rw [hf said]

theorem appends_bind {p : Printing ε α} {f : α → Printing ε β} (hp : Appends p)
    (hf : ∀ x, Appends (f x)) : Appends (p >>= f) := by
  intro before
  rw [run_bind, hp before]
  rcases h : p.outcome with ⟨said, result⟩
  cases result with
  | error e => rw [outcome_bind_error h]
  | ok x =>
      rw [outcome_bind_ok h (hf x), ← List.append_assoc]
      exact hf x _

/-- Results are those of the computations alone. -/
theorem result_bind (p : Printing ε α) {f : α → Printing ε β} (hf : ∀ x, Appends (f x)) :
    (p >>= f).outcome.2 = p.outcome.2 >>= fun x => (f x).outcome.2 := by
  rcases h : p.outcome with ⟨said, result⟩
  cases result with
  | error e =>
      rw [outcome_bind_error h]
      rfl
  | ok x =>
      rw [outcome_bind_ok h (hf x)]
      rfl

theorem result_ofExcept (result : Except ε α) : (ofExcept result).outcome.2 = result := by
  cases result <;> rfl

theorem appends_pure (x : α) : Appends (pure x : Printing ε α) := by
  intro before
  change (Except.ok x, before) = (Except.ok x, before ++ [])
  rw [List.append_nil]

theorem appends_throw (e : ε) : Appends (throw e : Printing ε α) := by
  intro before
  change (Except.error e, before) = (Except.error e, before ++ [])
  rw [List.append_nil]

theorem appends_line (t : Text) : Appends (line t : Printing ε Unit) := by
  intro before
  change (Except.ok (), before ++ t ++ ['\n']) = (Except.ok (), before ++ ([] ++ t ++ ['\n']))
  rw [List.nil_append, List.append_assoc]

theorem appends_ofExcept : ∀ result : Except ε α, Appends (ofExcept result)
  | .ok x => appends_pure x
  | .error e => appends_throw e

theorem run_adapt (f : ε → ε') (p : Printing ε α) (before : Text) :
    StateT.run (ExceptT.run (ExceptT.adapt f p)) before =
      ((StateT.run (ExceptT.run p) before).1.mapError f,
        (StateT.run (ExceptT.run p) before).2) := rfl

theorem appends_adapt {p : Printing ε α} (hp : Appends p) (f : ε → ε') :
    Appends (ExceptT.adapt f p : Printing ε' α) := by
  intro before
  rw [run_adapt, outcome, run_adapt, hp before]
  rfl

end Printing

open Printing

namespace Source

theorem appends_fetch (web : Web) (url : Text) : Appends (fetch web url) := by
  rw [fetch]
  split
  · exact appends_pure _
  · exact appends_bind (appends_line _) fun _ => appends_pure _

theorem appends_pieces (web : Web) (page : Text) (total n : Nat) (sources : List StyleSource) :
    Appends (pieces web page total n sources) := by
  induction sources generalizing n with
  | nil => exact appends_pure []
  | cons source sources ih =>
      cases source with
      | inline css => exact appends_bind (ih n) fun _ => appends_pure _
      | linked url =>
          refine appends_bind (appends_line _) fun _ => ?_
          refine appends_bind (appends_fetch web url) fun found => ?_
          exact appends_bind (ih (n + 1)) fun _ => appends_pure _

theorem appends_readPage (web : Web) (address html : Text) :
    Appends (readPage web address html) := by
  refine appends_bind (appends_line _) fun _ => ?_
  refine appends_bind (appends_ofExcept _) fun sources => ?_
  split
  · exact appends_bind (appends_line _) fun _ => appends_pure none
  · exact appends_bind (appends_pieces web address _ 0 sources) fun _ => appends_pure _

theorem appends_read (files : Files) (web : Web) (source : Text) :
    Appends (read files web source) := by
  refine appends_bind (appends_ofExcept _) fun isWeb => ?_
  split
  · refine appends_bind (appends_fetch web source) fun found => ?_
    cases found with
    | none => exact appends_pure none
    | some page =>
        dsimp only
        split
        · exact appends_readPage web source page.text
        · exact appends_pure _
  · exact appends_bind (appends_ofExcept _) fun _ => appends_pure _

end Source

namespace Invocation

variable {α ε : Type} (files : Files) (web : Web) (i : Invocation)

theorem appends_refuse (message : Text) : Appends (refuse message : Printing Ending α) :=
  appends_bind (appends_line _) fun _ => appends_throw _

theorem appends_orFail (fault : ε → Fault) (result : Except ε α) : Appends (orFail fault result) :=
  appends_ofExcept _

theorem appends_content? (path : Text) : Appends (content? files path) := by
  rw [content?]
  split
  · exact appends_pure _
  · split
    · exact appends_throw _
    · exact appends_pure _

theorem appends_hasInput : Appends (i.hasInput files) := by
  refine appends_bind (appends_orFail _ _) fun isWeb => ?_
  split
  · exact appends_pure true
  · exact appends_bind (appends_content? files _) fun _ => appends_pure _

theorem appends_readInput : Appends (i.readInput files web) := by
  have reading := appends_adapt (Source.appends_read files web i.input) fun e =>
    Ending.failed (.source e)
  refine appends_bind (appends_hasInput files i) fun found => ?_
  split
  · refine appends_bind (appends_refuse _) fun _ => appends_bind reading fun css => ?_
    cases css with
    | none => exact appends_refuse _
    | some css => exact appends_pure css
  · refine appends_bind reading fun css => ?_
    cases css with
    | none => exact appends_refuse _
    | some css => exact appends_pure css

theorem appends_checkSize (size : Nat) : Appends (i.checkSize size) := by
  rw [checkSize]
  split
  · exact appends_throw _
  · split
    · exact appends_refuse _
    · exact appends_pure ()

end Invocation

end DesignTokens
