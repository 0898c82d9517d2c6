import DesignTokens.Number.Decimal
import DesignTokens.Text.Quoted

/-!
Why a page cannot be read. Most of what is malformed is read as text; these are the faults that end
the reading.
-/
namespace DesignTokens

inductive MarkupError where
  | tooManyDigits (count : Nat)
  | unnamedSection (found : Text)
  | unknownSection (name : Text)
  deriving DecidableEq, Repr

namespace MarkupError

def rejection : String :=
  "The markup you provided was rejected by the parser. Trying a different parser or a different " ++
    "encoding may help.\n\nOriginal exception(s) from parser:\n AssertionError: "

def message : MarkupError → Text
  | tooManyDigits count => (Decimal.tooManyDigits count).toList
  | unnamedSection found =>
    rejection.toList ++ "expected name token at ".toList ++ Text.quoted found
  | unknownSection name =>
    rejection.toList ++ "unknown status keyword ".toList ++ Text.quoted name ++
      " in marked section".toList

end MarkupError

end DesignTokens
