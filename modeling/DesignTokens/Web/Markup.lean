import DesignTokens.Text.LetterCase
import DesignTokens.Web.Entity

/-!
What stands between the elements of a page: end tags, comments, declarations, marked sections, and
references in text. `after?` tells what follows one of them; it is `none` for one that never ends.
-/
namespace DesignTokens.Markup

def afterComment? : Text → Option Text
  | [] => none
  | c :: rest =>
    match c, rest with
    | '-', '-' :: tail =>
      match tail.dropWhile Text.isBlank with
      | '>' :: tail => some tail
      | _ => afterComment? rest
    | _, _ => afterComment? rest

/-- What follows the marks at the start of a text, with or without blanks in front of them. -/
def afterMarks? : List Char → Text → Option Text
  | [], t => some t
  | mark :: marks, t =>
    match t.dropWhile Text.isBlank with
    | [] => none
    | c :: rest => if c = mark then afterMarks? marks rest else none

/-- What follows the first place in a text where the marks stand. -/
def afterFirst? (marks : List Char) : Text → Option Text
  | [] => none
  | c :: rest =>
    match afterMarks? marks (c :: rest) with
    | some tail => some tail
    | none => afterFirst? marks rest

/-- The marks that close a section with a name. -/
def closingMarks? (name : Text) : Option (List Char) :=
  let name := String.ofList name
  if ["temp", "cdata", "ignore", "include", "rcdata"].contains name then some [']', ']', '>']
  else if ["if", "else", "endif"].contains name then some [']', '>']
  else none

def isSectionNameChar (c : Char) : Bool := c.isAlphanum || c == '-' || c == '_' || c == '.'

/-- What follows a marked section after its `<![`. Blanks belong to the name that they stand after.
-/
def afterSection? (t : Text) : Except MarkupError (Option Text) :=
  let name := t.takeWhile isSectionNameChar
  let blanks := (t.dropWhile isSectionNameChar).takeWhile Text.isBlank
  match t with
  | [] => .ok none
  | c :: _ =>
    if !c.isAlpha then .error (.unnamedSection ("<![".toList ++ t.take 17))
    else if name.length + blanks.length = t.length then .ok none
    else
      match closingMarks? (Text.lower name) with
      | some marks => .ok (afterFirst? marks t)
      | none => .error (.unknownSection (name ++ blanks))

def afterBracket? (t : Text) : Option Text := (Text.cut '>' t).2

/-- What follows the markup after a `<` that starts no element. A `<` in front of anything else is
text. -/
def after? (t : Text) : Except MarkupError (Option Text) :=
  match t with
  | '!' :: '-' :: '-' :: rest => .ok (afterComment? rest)
  | '!' :: '[' :: rest => afterSection? rest
  | '!' :: rest | '?' :: rest | '/' :: rest => .ok (afterBracket? rest)
  | t => .ok (some t)

/-- What follows markup that never ends, after its `<`: it is text up to the first `>`, or else up
to the next `<`. -/
def afterUnclosed (t : Text) : Text :=
  match afterBracket? t with
  | some rest => rest
  | none => if t.contains '<' then t.dropWhile (· != '<') else t

/-- Is `&#` in text, with `t` after it, the start of a number? The number has to end before the page
does, and not before a letter that could be a digit. -/
def isNumber (t : Text) : Except MarkupError Bool := do
  match Entity.Numeral.scan? t with
  | none => return false
  | some numeral =>
    match t.drop numeral.length with
    | [] => return false
    | c :: _ => if Color.isHexDigit c then return false else numeral.value.map fun _ => true

end DesignTokens.Markup
