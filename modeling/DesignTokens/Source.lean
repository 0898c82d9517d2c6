import DesignTokens.Files.Tree
import DesignTokens.Printing
import DesignTokens.Web.StyleSource

/-!
Where a stylesheet comes from: a file, an address of a stylesheet, or an address of a page. The
styles of a page are put together in document order, each under a banner that tells where it is
from. What cannot be fetched is reported and left out.
-/
namespace DesignTokens

structure Page where
  text : Text
  contentType : Text
  deriving DecidableEq, Repr

abbrev Web := Text → Except Text Page

abbrev Files := Path → Except FileError Bytes

inductive SourceError where
  | url (e : UrlError)
  | page (e : PageError)
  | file (e : FileError)
  deriving DecidableEq, Repr

def SourceError.message : SourceError → Text
  | url e => e.message
  | page e => e.message
  | file e => e.message

namespace Source

def fetch (web : Web) (url : Text) : Printing SourceError (Option Page) := do
  match web url with
  | .ok page => return some page
  | .error reason =>
    Printing.line ("  Warning: Could not fetch ".toList ++ url ++ ": ".toList ++ reason)
    return none

def banner (origin : Text) : Text := "/* Source: ".toList ++ origin ++ " */\n".toList

/-- The pieces of the styles of a page, of which `n` were fetched before, out of `total`. -/
def pieces (web : Web) (page : Text) (total : Nat) :
    Nat → List StyleSource → Printing SourceError (List Text)
  | _, [] => return []
  | n, .inline css :: rest => do
    return (banner (page ++ " <style>".toList) ++ css) :: (← pieces web page total n rest)
  | n, .linked url :: rest => do
    Printing.line (s!"  [{n + 1}/{total}] Downloading: ".toList ++ url)
    let piece := (← fetch web url).toList.map fun found => banner url ++ found.text
    return piece ++ (← pieces web page total (n + 1) rest)

def readPage (web : Web) (address html : Text) : Printing SourceError (Option Text) := do
  Printing.line ("Fetching page: ".toList ++ address)
  let sources ← Printing.ofExcept ((StyleSource.ofPage address html).mapError .page)
  if sources.isEmpty then
    Printing.line "No CSS found on the page".toList
    return none
  let total := (sources.filterMap StyleSource.url?).length
  let css := Text.join "\n\n".toList (← pieces web address total 0 sources)
  return if css.isEmpty then none else some css

def read (files : Files) (web : Web) (source : Text) : Printing SourceError (Option Text) := do
  if ← Printing.ofExcept ((Url.isWeb source).mapError .url) then
    match ← fetch web source with
    | none => return none
    | some page =>
      if StyleSource.looksLikePage page.contentType page.text then readPage web source page.text
      else return some page.text
  else
    let content ← Printing.ofExcept ((files (Path.ofText source)).mapError .file)
    return some (Text.withLineFeeds (Utf8.decodeLossy content))

end Source

end DesignTokens
