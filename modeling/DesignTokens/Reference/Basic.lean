import DesignTokens.Length.Literal
import DesignTokens.Text.Substring
import DesignTokens.Token.Name

/-!
References in the place of literals. `substituteAll` takes every occurrence of a literal,
`substituteLone` only those that stand alone: no letter, digit, `.` or `-` touches them, and no `%`
follows. Longer literals are replaced first.
-/
namespace DesignTokens

def reference (name : Text) : Text := "var(".toList ++ name ++ [')']

namespace TokenMap

def byLength (m : TokenMap) : List (Text × Text) :=
  m.entries.mergeSort fun a b => b.1.length ≤ a.1.length

def reference? (m : TokenMap) (literal : Text) : Option Text :=
  ((m.get? literal).filter (!·.isEmpty)).map reference

/-- A value whose normal form is a literal as a reference; any other value as it is. -/
def replaceWhole (m : TokenMap) (normal : Text → Text) (value : Text) : Text :=
  (m.reference? (normal value)).getD value

def substituteAll (m : TokenMap) (t : Text) : Text :=
  m.byLength.foldl (fun t (literal, name) => Text.replaceAll literal (reference name) t) t

end TokenMap

namespace Text

/-- Characters before which a literal does not end. -/
def joinsPrevious (c : Char) : Bool := Length.joinsNext c || c == '%'

/-- Nothing that belongs to a literal touches the place between the character before and the text.
-/
def standsAlone (before : Option Char) (rest : Text) : Bool :=
  !before.any Length.joinsNext && !nextIs joinsPrevious rest

def loneToken (spelling : Spelling) (literal : Text) : Recognizer := fun before t =>
  if spelling.matches literal t && !before.any Length.joinsNext &&
      !nextIs joinsPrevious (t.drop literal.length) then
    some literal.length
  else none

/-- The text `new` at every place that stands alone. -/
def insertAlone (new : Text) (before : Option Char) (t : Text) : Text :=
  (if standsAlone before t then new else []) ++
    match t with
    | [] => []
    | c :: rest => c :: insertAlone new (some c) rest

/-- Every occurrence of a literal that stands alone, replaced. -/
def replaceLone (spelling : Spelling) (literal new t : Text) : Text :=
  if literal.isEmpty then insertAlone new none t
  else mapTokens (loneToken spelling literal) (fun _ => new) t

end Text

def TokenMap.substituteLone (spelling : Text.Spelling) (m : TokenMap) (value : Text) : Text :=
  m.byLength.foldl
    (fun value (literal, name) => Text.replaceLone spelling literal (reference name) value) value

end DesignTokens
