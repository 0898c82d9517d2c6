import DesignTokens.Text.Token

/-!
Occurrences of one text in another: substitution from left to right and the cut at the last
occurrence.
-/
namespace DesignTokens.Text

def literalToken (literal : Text) : Recognizer :=
  fun _ t => if literal.isPrefixOf t then some literal.length else none

/-- Every occurrence of `old` replaced by `new`. The empty text occurs around every character. -/
def replaceAll (old new t : Text) : Text :=
  if old.isEmpty then t.flatMap (fun c => new ++ [c]) ++ new
  else mapTokens (literalToken old) (fun _ => new) t

/-- The text before and after the last occurrence of `part`. -/
def cutLast? (part : Text) : Text → Option (Text × Text)
  | [] => if part.isEmpty then some ([], []) else none
  | c :: rest =>
    match cutLast? part rest with
    | some (head, tail) => some (c :: head, tail)
    | none => if part.isPrefixOf (c :: rest) then some ([], (c :: rest).drop part.length) else none

/-- The text before and after the first occurrence of `part`. -/
def cutFirst? (part : Text) : Text → Option (Text × Text)
  | [] => if part.isEmpty then some ([], []) else none
  | c :: rest =>
    if part.isPrefixOf (c :: rest) then some ([], (c :: rest).drop part.length)
    else (cutFirst? part rest).map fun (head, tail) => (c :: head, tail)

def afterPrefix? (part t : Text) : Option Text :=
  if part.isPrefixOf t then some (t.drop part.length) else none

def occursIn (part t : Text) : Bool := (cutFirst? part t).isSome

end DesignTokens.Text
