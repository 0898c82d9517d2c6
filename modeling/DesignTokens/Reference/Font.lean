import DesignTokens.Font.Shorthand
import DesignTokens.Reference.Basic
import DesignTokens.Reference.Template
import DesignTokens.Token.Tables

/-!
References in a `font` value. Each weight, then each size, then the family is looked for in what the
steps before have left: of a weight and a size the first occurrence is replaced, of the family the
last one if it ends the value. The reference of a weight is a template.
-/
namespace DesignTokens.FontShorthand

def weightTemplates (tokens : TokenTables) : Except TemplateError (List (Text × Template)) :=
  (tokens.table .fontWeights).entries.mapM fun (literal, name) => do
    return (literal, ← Template.parse (reference name))

/-- Does a text start with a word that has a word boundary on both sides? -/
def startsWithWord (word : Text) (before : Option Char) (t : Text) : Bool :=
  let (matched, rest) := t.splitAt word.length
  Text.isPrefixNoCase word t && Text.atBoundary before t &&
    Text.atBoundary (matched.getLast?.or before) rest

/-- The first occurrence of a word, replaced. -/
def replaceWord (word : Text) (template : Template) (before : Option Char) (t : Text) : Text :=
  if startsWithWord word before t then
    let (matched, rest) := t.splitAt word.length
    template.fill matched ++ rest
  else
    match t with
    | [] => []
    | c :: rest => c :: replaceWord word template (some c) rest

def afterLiteral? (literal t : Text) : Option Text :=
  let rest := t.drop literal.length
  if Text.isPrefixNoCase literal t && !Text.nextIs Text.joinsPrevious rest then some rest else none

/-- The reference of a size, with the line height after it, and what follows. -/
def sizeText (lineHeights : TokenMap) (name rest : Text) : Text :=
  match lineHeight? rest with
  | some (lineHeight, rest) =>
    reference name ++ " / ".toList ++ (lineHeights.reference? lineHeight).getD lineHeight ++ rest
  | none => reference name ++ rest

/-- The first size after a blank, replaced. -/
def replaceInnerSize (lineHeights : TokenMap) (literal name : Text) : Text → Text
  | [] => []
  | c :: rest =>
    match if Text.isBlank c then afterLiteral? literal rest else none with
    | some tail => c :: sizeText lineHeights name tail
    | none => c :: replaceInnerSize lineHeights literal name rest

/-- The first size at the start or after a blank, replaced. -/
def replaceSize (lineHeights : TokenMap) (literal name t : Text) : Text :=
  match afterLiteral? literal t with
  | some tail => sizeText lineHeights name tail
  | none => replaceInnerSize lineHeights literal name t

/-- The last occurrence of a family, replaced if only blanks follow. -/
def replaceFamily (families : TokenMap) (family value : Text) : Text :=
  match families.reference? (Value.fontFamily family), Text.cutLast? family value with
  | some name, some (front, rest) => if rest.all Text.isBlank then front ++ name ++ rest else value
  | _, _ => value

def substituteWith (weights : List (Text × Template)) (tokens : TokenTables) (value : Text) :
    Text :=
  let weighted := weights.foldl (fun v (literal, t) => replaceWord literal t none v) value
  let sized := (tokens.table .fontSizes).entries.foldl
    (fun v (literal, name) => replaceSize (tokens.table .lineHeights) literal name v) weighted
  (family? value).elim sized fun family =>
    replaceFamily (tokens.table .fontFamilies) family sized

def substitute (tokens : TokenTables) (value : Text) : Except TemplateError Text := do
  return substituteWith (← weightTemplates tokens) tokens value

end DesignTokens.FontShorthand
