import DesignTokens.Text.LetterCase
import DesignTokens.Text.Substring

/-!
Normal forms of whole values, under which values that differ in blanks count as one: single blanks
between words, one blank after each comma of a font list, and one on each side of the `/` between
radii.
-/
namespace DesignTokens.Value

/-- Words with single blanks between them. -/
def collapsed (value : Text) : Text := Text.join [' '] (Text.words value)

/-- A list of font families. -/
def fontFamily (value : Text) : Text :=
  Text.join ", ".toList ((Text.splitOn ',' value).map collapsed)

def radius (value : Text) : Text := collapsed (Text.replaceAll ['/'] " / ".toList value)

def shadow (value : Text) : Text := collapsed value

def wideKeywords : List Text :=
  ["inherit".toList, "initial".toList, "unset".toList, "revert".toList, "revert-layer".toList]

def isWideKeyword (value : Text) : Bool := wideKeywords.contains (Text.lower (Text.trim value))

end DesignTokens.Value
