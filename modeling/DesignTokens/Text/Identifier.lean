import DesignTokens.Text.Basic
import DesignTokens.Text.IdentifierTable

/-!
Identifiers of any script: a letter or an underscore, then letters, digits, marks and connectors.
-/
namespace DesignTokens.Text

def startsIdentifier (c : Char) : Bool :=
  if c.toNat < 128 then c.isAlpha || c == '_'
  else isWord c && !inRanges unstartingRanges c.toNat || inRanges startingRanges c.toNat

def continuesIdentifier (c : Char) : Bool :=
  startsIdentifier c || c.isDigit || inRanges continuingRanges c.toNat

def isIdentifier : Text → Bool
  | [] => false
  | c :: rest => startsIdentifier c && rest.all continuesIdentifier

end DesignTokens.Text
