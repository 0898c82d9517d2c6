import DesignTokens.Text.Substring
import DesignTokens.Web.Element
import DesignTokens.Web.Url

/-!
Where a page has its styles: stylesheets that it links to or that its style elements import, and the
style elements themselves, in document order.
-/
namespace DesignTokens

/-- Why the sources of a page cannot be told. -/
inductive PageError where
  | markup (e : MarkupError)
  | url (e : UrlError)
  deriving DecidableEq, Repr

def PageError.message : PageError → Text
  | markup e => e.message
  | url e => e.message

inductive StyleSource where
  | linked (url : Text)
  | inline (css : Text)
  deriving DecidableEq, Repr

namespace StyleSource

def url? : StyleSource → Option Text
  | linked url => some url
  | inline _ => none

def dropQuote : Text → Text
  | [] => []
  | c :: rest => if Text.isQuote c then rest else c :: rest

def isReferenceChar (c : Char) : Bool := !Text.isQuote c && c != ')'

/-- The address in an import with `url(…)` at the start of a text, and what follows the import. -/
def import? (t : Text) : Option (Text × Text) := do
  let gap ← Text.afterPrefix? "@import".toList t
  let call ← Text.afterPrefix? "url(".toList (gap.dropWhile Text.isBlank)
  let inside := dropQuote call
  let address := inside.takeWhile isReferenceChar
  match dropQuote (inside.dropWhile isReferenceChar) with
  | ')' :: rest =>
    if Text.nextIs Text.isBlank gap && !address.isEmpty then some (address, rest) else none
  | _ => none

def importToken : Text.Recognizer := fun _ t =>
  (import? t).map fun (_, rest) => t.length - rest.length

def imports (css : Text) : List Text :=
  (Text.tokens importToken css).filterMap fun t => (import? t).map Prod.fst

def linkAddress? (e : Element) : Option Text :=
  let relations := (Text.words ((e.attribute? "rel").getD [])).map Text.lower
  match e.attribute? "href" with
  | some address =>
    if relations.contains "stylesheet".toList && !address.isEmpty then some address else none
  | none => none

/-- The sources in an element of the page with the given address. -/
def ofElement (page : Text) (e : Element) : Except UrlError (List StyleSource) := do
  let resolve (address : Text) := (Url.join page address).map linked
  if e.name = "link".toList then (linkAddress? e).toList.mapM resolve
  else if e.name = "style".toList then
    let imported ← (imports e.content).mapM resolve
    return imported ++ if (Text.trim e.content).isEmpty then [] else [inline e.content]
  else return []

def ofPage (page html : Text) : Except PageError (List StyleSource) := do
  let elements ← (Element.ofPage html).mapError .markup
  let sources ← (elements.mapM (ofElement page)).mapError .url
  return sources.flatten

/-- Does a text with a content type look like a page? -/
def looksLikePage (contentType t : Text) : Bool :=
  let head := Text.lower ((Text.trimLeft t).take 200)
  Text.occursIn "html".toList (Text.lower contentType) ||
    "<!doctype html".toList.isPrefixOf head || "<html".toList.isPrefixOf head

end StyleSource

end DesignTokens
