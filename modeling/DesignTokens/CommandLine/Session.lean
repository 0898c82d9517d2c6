import DesignTokens.CommandLine.Argument
import DesignTokens.CommandLine.Summary
import DesignTokens.Config.File
import DesignTokens.Json.Printer
import DesignTokens.Source
import DesignTokens.Tokenization

/-!
A session of the program: the command line is read, the configuration and the stylesheet are read,
the tokens are made, and then all that is asked for is written. Everything before the first write is
preparation; it only prints, so a session that ends in it leaves the files as they were.
-/
namespace DesignTokens

/-- What a session can fail by, other than a mistake that it reports. -/
inductive Fault where
  | configFile (e : ConfigFileError)
  | option (e : OptionError)
  | source (e : SourceError)
  | number (e : NumberFault)
  | template (e : TemplateError)
  | file (e : FileError)
  | noTokensPath
  | noSizeLimit
  | unencodable (halves : LoneHalves)

def Fault.message : Fault → Text
  | configFile e => e.message
  | option e => e.message
  | source e => e.message
  | file e => e.message
  | number e => e.message.toList
  | template e => e.message
  | noTokensPath => "expected str, bytes or os.PathLike object, not list".toList
  | noSizeLimit => "'>' not supported between instances of 'int' and 'list'".toList
  | unencodable halves => halves.message

inductive Ending where
  | finished
  | exit (code : Nat)
  | failed (fault : Fault)

/-- What is done once the tokens are made. -/
inductive Action where
  | print (line : Text)
  | write (path : Path) (content : Text)
  | fail (fault : Fault)

namespace Invocation

def refuse {α : Type} (message : Text) : Printing Ending α := do
  Printing.line ("Error: ".toList ++ message)
  throw (.exit 1)

def orFail {ε α : Type} (fault : ε → Fault) (result : Except ε α) : Printing Ending α :=
  Printing.ofExcept (result.mapError fun e => .failed (fault e))

def content? (files : Files) (path : Text) : Printing Ending (Option Bytes) :=
  match files (Path.ofText path) with
  | .ok content => return some content
  | .error e => if e.fault.isUndecided then throw (.failed (.file e)) else return none

def fileConfig (files : Files) (i : Invocation) : Printing Ending Config := do
  match i.configPath with
  | none => return .default
  | some path =>
    match ← content? files path with
    | none => refuse ("Config file not found: ".toList ++ path)
    | some content =>
      match Config.default.overlayFile content with
      | .ok config => return config
      | .error e =>
        if e.isUnreadable then
          refuse ("Invalid config file ".toList ++ path ++ ": ".toList ++ e.message)
        else throw (.failed (.configFile e))

/-- The configuration: the options on the command line over those in the file. -/
def config (files : Files) (i : Invocation) : Printing Ending Config := do
  orFail .option ((← i.fileConfig files).overlay i.settings)

def hasInput (files : Files) (i : Invocation) : Printing Ending Bool := do
  if ← orFail (fun e => .source (.url e)) (Url.isWeb i.input) then return true
  return (← content? files i.input).isSome

def readInput (files : Files) (web : Web) (i : Invocation) : Printing Ending Text := do
  if !(← i.hasInput files) then refuse ("Input file not found: ".toList ++ i.input)
  match ← (Source.read files web i.input).adapt fun e => .failed (.source e) with
  | none => refuse ("No CSS content could be read from ".toList ++ i.input)
  | some css => return css

def checkSize (i : Invocation) (size : Nat) : Printing Ending Unit :=
  match i.maxBytes with
  | none => throw (.failed .noSizeLimit)
  | some limit =>
    if limit < size then
      refuse (s!"Input is {size} bytes, above the --max-bytes limit of {limit}".toList)
    else pure ()

def writing (note : String) (path content : Text) : List Action :=
  let path := Path.ofText path
  [.write path content, .print (note.toList ++ " > ".toList ++ path.text)]

/-- The document of the tokens is written. If it has no encoding, the file stays empty. -/
def writingTokens (i : Invocation) (r : Tokenization) : List Action :=
  match i.tokensPath, r.documentText with
  | none, _ => [.fail .noTokensPath]
  | some path, .ok text => writing "Tokens" path text
  | some path, .error halves => [.write (Path.ofText path) [], .fail (.unencodable halves)]

/-- Everything that is asked for about a tokenization. The converted stylesheet is only written if
there is a conversion and the one with references is not asked for. -/
def actions (i : Invocation) (r : Tokenization) : List Action :=
  let isConverted := !r.config.conversions.isEmpty && i.substitutedPath.isNone
  let converted := if isConverted then i.convertedPath else none
  let manifest := (r.manifest (some i.input)).toJson.indented ++ ['\n']
  (converted.toList.flatMap fun path => writing "Converted CSS" path r.converted) ++
    i.writingTokens r ++
    (i.substitutedPath.toList.flatMap fun path =>
      match r.substituted with
      | .ok css => writing "Rewritten CSS" path css
      | .error e => [.fail (.template e)]) ++
    (i.manifestPath.toList.flatMap fun path => writing "Manifest" path manifest) ++
    (if i.quiet then [] else r.tokens.summary.map .print) ++ [.print "\nDone.".toList]

def prepare (files : Files) (web : Web) (i : Invocation) : Printing Ending (List Action) := do
  let config ← i.config files
  let css ← i.readInput files web
  let size := (Utf8.encode css).length
  i.checkSize size
  Printing.line ("Parsing CSS: ".toList ++ i.input ++ s!" ({size} bytes)".toList)
  return i.actions (← orFail .number (Tokenization.ofText config css))

end Invocation

namespace Request

def prepare (files : Files) (web : Web) (arguments : List Text) :
    Printing Ending (List Action) := do
  match parse arguments with
  | .error _ => throw (.exit 2)
  | .ok .help => throw (.exit 0)
  | .ok (.run i) => i.prepare files web

end Request

/-- What a session printed, the files after it, and how it ended. -/
structure Session where
  printed : Text
  files : FileTree
  ending : Ending

namespace Session

/-- The session goes on with some actions, up to the first that fails. -/
def perform (s : Session) : List Action → Session
  | [] => s
  | .print line :: rest => perform { s with printed := s.printed ++ line ++ ['\n'] } rest
  | .write path content :: rest =>
    match s.files.store path (Utf8.encode content) with
    | .ok files => perform { s with files := files } rest
    | .error e => { s with ending := .failed (.file e) }
  | .fail fault :: _ => { s with ending := .failed fault }

def run (files : FileTree) (web : Web) (arguments : List Text) : Session :=
  match (Request.prepare files.read web arguments).outcome with
  | (printed, .ok actions) => perform ⟨printed, files, .finished⟩ actions
  | (printed, .error ending) => ⟨printed, files, ending⟩

end Session

end DesignTokens
