import DesignTokens.Text.Basic

/-!
Computations that print text as they go and may stop early. What is printed before a stop stays
printed.
-/
namespace DesignTokens

abbrev Printing (ε : Type) := ExceptT ε (StateM Text)

namespace Printing

variable {ε α : Type}

def line (t : Text) : Printing ε Unit := modify (· ++ t ++ ['\n'])

def ofExcept : Except ε α → Printing ε α
  | .ok x => pure x
  | .error e => throw e

def outcome (p : Printing ε α) : Text × Except ε α :=
  let (result, printed) := StateT.run (ExceptT.run p) []
  (printed, result)

end Printing

end DesignTokens
