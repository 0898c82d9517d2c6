import DesignTokens.Config.Options
import DesignTokens.Json.Reader
import DesignTokens.Text.Utf8

/-!
Settings in a file: a JSON object in UTF-8.
-/
namespace DesignTokens

inductive ConfigFileError where
  | encoding (fault : Utf8.Fault)
  | json (fault : JsonError) (source : Text)
  | option (fault : OptionError)

namespace Config

def readFile (content : Bytes) : Except ConfigFileError Json := do
  let text ← (Utf8.decode content).mapError .encoding
  let source := Text.withLineFeeds text
  (Json.parse source).mapError fun fault => .json fault source

def overlayFile (content : Bytes) (c : Config) : Except ConfigFileError Config := do
  let options ← readFile content
  (c.overlay options).mapError .option

end Config

namespace ConfigFileError

def message : ConfigFileError → Text
  | encoding fault => fault.message
  | json fault source => (fault.message source).toList
  | option fault => fault.message

/-- Is the error one that the text of the file has? Otherwise the text is read, but a value is of
the wrong kind, or values are too deep inside of each other. -/
def isUnreadable : ConfigFileError → Bool
  | option fault => fault.isUnreadable
  | json (.tooDeep _) _ => false
  | _ => true

end ConfigFileError

end DesignTokens
