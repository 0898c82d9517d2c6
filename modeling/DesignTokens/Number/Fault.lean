/-!
The ways in which arithmetic on finite and infinite numbers has no result.
-/
namespace DesignTokens

inductive NumberFault where
  | divisionByZero
  | infinityToInteger
  | notANumberToInteger
  | resultOutOfRange
  | integerTooLarge
  deriving DecidableEq, Repr

namespace NumberFault

def message : NumberFault → String
  | divisionByZero => "float division by zero"
  | infinityToInteger => "cannot convert float infinity to integer"
  | notANumberToInteger => "cannot convert float NaN to integer"
  | resultOutOfRange => "(34, 'Numerical result out of range')"
  | integerTooLarge => "int too large to convert to float"

end NumberFault

end DesignTokens
