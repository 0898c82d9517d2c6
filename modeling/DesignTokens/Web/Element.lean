import DesignTokens.Web.Markup
import DesignTokens.Web.StartTag

/-!
The elements of an HTML page, in the order of their start tags. Text and all other markup is passed
over. What an element holds is of interest only for style sheets and scripts, whose content is raw:
it ends at their own end tag and nowhere else.
-/
namespace DesignTokens

def StartTag.decodedAttributes (tag : StartTag) : Except MarkupError (List (Text × Text)) :=
  tag.attributes.mapM fun (name, value) => return (name, ← Entity.decode value)

structure Element where
  name : Text
  attributes : List (Text × Text)
  content : Text
  deriving DecidableEq, Repr

namespace Element

/-- The value of an attribute. The last of several with one name counts. -/
def attribute? (e : Element) (name : String) : Option Text :=
  (e.attributes.reverse.find? fun entry => entry.1 = name.toList).map Prod.snd

/-- What follows the end tag of an element with the name, if the text starts with it. -/
def afterEndTag? (name : Text) : Text → Option Text
  | '<' :: '/' :: rest =>
    let rest := rest.dropWhile Text.isBlank
    if name.isPrefixOf ((rest.take name.length).map Char.toLower) then
      match (rest.drop name.length).dropWhile Text.isBlank with
      | '>' :: rest => some rest
      | _ => none
    else none
  | _ => none

/-- The text up to the end tag of an element, and what follows the tag. An element that is never
closed has no content. -/
def cutContent? (name : Text) : Text → Option (Text × Text)
  | [] => none
  | c :: rest =>
    match afterEndTag? name (c :: rest) with
    | some rest => some ([], rest)
    | none => (cutContent? name rest).map fun (content, rest) => (c :: content, rest)

def rawNames : List Text := ["script".toList, "style".toList]

inductive Reading where
  | element (e : Element) (rest : Text)
  | other (rest : Text)
  | unclosed

/-- The element with a start tag, and what follows it. A broken tag is text. -/
def ofTag (tag : StartTag) : Except MarkupError Reading := do
  match tag.ending with
  | .unclosed => return .unclosed
  | .broken rest =>
    let _ ← tag.decodedAttributes
    return .other rest
  | .closed isEmpty rest =>
    let attributes ← tag.decodedAttributes
    if !isEmpty && rawNames.contains tag.name then
      let (content, rest) := (cutContent? tag.name rest).getD ([], [])
      return .element ⟨tag.name, attributes, content⟩ rest
    else return .element ⟨tag.name, attributes, []⟩ rest

def read (t : Text) : Except MarkupError Reading :=
  if t.head?.any Char.isAlpha then ofTag (.read t)
  else (Markup.after? t).map fun rest? => rest?.elim .unclosed .other

/-- The elements of a text of which the next `skip` characters are read already. A `&#` without a
number ends the page, unless nothing before it is malformed and a semicolon follows somewhere. -/
def scan (wellFormed : Bool) : Nat → Text → Except MarkupError (List Element)
  | _, [] => return []
  | skip + 1, _ :: rest => scan wellFormed skip rest
  | 0, c :: rest => do
    if c = '<' then
      match ← read rest with
      | .element e tail => return e :: (← scan wellFormed (rest.length - tail.length) rest)
      | .other tail => scan wellFormed (rest.length - tail.length) rest
      | .unclosed => scan false (rest.length - (Markup.afterUnclosed rest).length) rest
    else if c = '&' && rest.head? = some '#' then
      if ← Markup.isNumber (rest.drop 1) then scan wellFormed 0 rest
      else if wellFormed && rest.contains ';' then scan false 1 rest
      else return []
    else scan wellFormed 0 rest

def ofPage (html : Text) : Except MarkupError (List Element) := scan true 0 html

end Element

end DesignTokens
