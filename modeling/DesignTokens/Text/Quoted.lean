import DesignTokens.Text.CodePoint
import DesignTokens.Text.UnprintableTable

/-!
Text in quotes, as messages show it: between single quotes, or between double quotes if it holds a
single quote and no double one. The quote in use, the backslash and code points without a visible
form are written as escapes.
-/
namespace DesignTokens

namespace Text

def isPrintable (c : Char) : Bool :=
  if c.toNat < 128 then 0x20 ≤ c.toNat && c.toNat < 0x7F
  else !inRanges unprintableRanges c.toNat

def escapeInvisible (c : Char) : Text :=
  let n := c.toNat
  if n < 0x100 then "\\x".toList ++ hexDigits 2 n
  else if n < 0x10000 then "\\u".toList ++ hexDigits 4 n
  else "\\U".toList ++ hexDigits 8 n

def escapeFor (quote c : Char) : Text :=
  if c = quote ∨ c = '\\' then ['\\', c]
  else if c = '\n' then "\\n".toList
  else if c = '\r' then "\\r".toList
  else if c = '\t' then "\\t".toList
  else if isPrintable c then [c]
  else escapeInvisible c

end Text

namespace CodeText

def escapeFor (quote : Char) : CodePoint → Text
  | .char c => Text.escapeFor quote c
  | .half n => "\\u".toList ++ Text.hexDigits 4 (0xD800 + n)

def quoted (t : CodeText) : Text :=
  let quote := if t.contains (.char '\'') && !t.contains (.char '"') then '"' else '\''
  quote :: t.flatMap (escapeFor quote) ++ [quote]

end CodeText

def Text.quoted (t : Text) : Text := (CodeText.ofText t).quoted

end DesignTokens
